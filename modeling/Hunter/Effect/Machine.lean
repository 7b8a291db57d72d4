import Hunter.Effect.Program
set_option autoImplicit false

namespace Hunter.Effect

universe u

/-- A process that runs phase after phase on a shared state. Others may act between any
two of its calls, and it may crash and start over. -/
structure Machine (C : Type → Type u) (ε σ : Type) where
  Phase : Type
  boot : Phase
  afterError : Phase
  body : Phase → Prog C ε Phase
  init : σ → Prop
  step : {β : Type} → C β → σ → β → σ → Prop
  env : σ → σ → Prop
  mayCrash : Prog C ε Phase → σ → Prop

/-- What is left of the current phase, and the state. -/
structure Config {C : Type → Type u} {ε σ : Type} (M : Machine C ε σ) where
  rest : Prog C ε M.Phase
  state : σ

namespace Machine
variable {C : Type → Type u} {ε σ γ A : Type}

inductive Step (M : Machine C ε σ) : Config M → Config M → Prop
  | call {β : Type} {c : C β} {k : β → Prog C ε M.Phase} {s s' : σ} {b : β} :
      M.step c s b s' → Step M ⟨.call c k, s⟩ ⟨k b, s'⟩
  | finish {phase : M.Phase} {s : σ} : Step M ⟨.done phase, s⟩ ⟨M.body phase, s⟩
  | abort {e : ε} {s : σ} : Step M ⟨.fail e, s⟩ ⟨M.body M.afterError, s⟩
  | crash {p : Prog C ε M.Phase} {s : σ} : M.mayCrash p s → Step M ⟨p, s⟩ ⟨M.body M.boot, s⟩
  | env {p : Prog C ε M.Phase} {s s' : σ} : M.env s s' → Step M ⟨p, s⟩ ⟨p, s'⟩

inductive Reachable (M : Machine C ε σ) : Config M → Prop
  | start {s : σ} : M.init s → Reachable M ⟨M.body M.boot, s⟩
  | step {x y : Config M} : Reachable M x → Step M x y → Reachable M y

/-- Reached while what the others do meets a condition on what is left of the current phase. -/
inductive ReachableBeside (M : Machine C ε σ) (ok : Prog C ε M.Phase → σ → σ → Prop) :
    Config M → Prop
  | start {s : σ} : M.init s → ReachableBeside M ok ⟨M.body M.boot, s⟩
  | call {β : Type} {c : C β} {k : β → Prog C ε M.Phase} {s s' : σ} {b : β} :
      ReachableBeside M ok ⟨.call c k, s⟩ → M.step c s b s' → ReachableBeside M ok ⟨k b, s'⟩
  | finish {phase : M.Phase} {s : σ} :
      ReachableBeside M ok ⟨.done phase, s⟩ → ReachableBeside M ok ⟨M.body phase, s⟩
  | abort {e : ε} {s : σ} :
      ReachableBeside M ok ⟨.fail e, s⟩ → ReachableBeside M ok ⟨M.body M.afterError, s⟩
  | crash {p : Prog C ε M.Phase} {s : σ} :
      ReachableBeside M ok ⟨p, s⟩ → M.mayCrash p s → ReachableBeside M ok ⟨M.body M.boot, s⟩
  | env {p : Prog C ε M.Phase} {s s' : σ} :
      ReachableBeside M ok ⟨p, s⟩ → M.env s s' → ok p s s' → ReachableBeside M ok ⟨p, s'⟩

/-- Configurations the machine's own steps do not lead out of. -/
structure Closed (M : Machine C ε σ) (R : Config M → Prop) : Prop where
  call : ∀ {β : Type} {c : C β} {k : β → Prog C ε M.Phase} {s s' : σ} {b : β},
    R ⟨.call c k, s⟩ → M.step c s b s' → R ⟨k b, s'⟩
  finish : ∀ {phase : M.Phase} {s : σ}, R ⟨.done phase, s⟩ → R ⟨M.body phase, s⟩
  abort : ∀ {e : ε} {s : σ}, R ⟨.fail e, s⟩ → R ⟨M.body M.afterError, s⟩

theorem closed_reachable {M : Machine C ε σ} : M.Closed M.Reachable where
  call h hstep := h.step (.call hstep)
  finish h := h.step .finish
  abort h := h.step .abort

theorem closed_reachableBeside {M : Machine C ε σ} {ok : Prog C ε M.Phase → σ → σ → Prop} :
    M.Closed (M.ReachableBeside ok) :=
  ⟨.call, .finish, .abort⟩

/-- A run from `x` on through states that meet `keep`. -/
inductive Leads (M : Machine C ε σ) (keep : σ → Prop) (x : Config M) : Config M → Prop
  | refl : Leads M keep x x
  | step {y z : Config M} : Leads M keep x y → Step M y z → keep z.state → Leads M keep x z

theorem Leads.reachable {M : Machine C ε σ} {keep : σ → Prop} {x y : Config M}
    (h : M.Leads keep x y) (hx : M.Reachable x) : M.Reachable y := by
  induction h with
  | refl => exact hx
  | step _ hstep _ ih => exact ih.step hstep

theorem Leads.keeps {M : Machine C ε σ} {keep P : σ → Prop} {x y : Config M}
    (h : M.Leads keep x y) (hx : P x.state)
    (hstep : ∀ y z, M.Step y z → P y.state → keep z.state → P z.state) : P y.state := by
  induction h with
  | refl => exact hx
  | step _ hs hk ih => exact hstep _ _ hs ih hk

/-- The runs of `M` whose steps all meet a condition. -/
def restrict (M : Machine C ε σ) (callOk : {β : Type} → C β → σ → β → σ → Prop)
    (envOk : σ → σ → Prop) (crashOk : Prog C ε M.Phase → σ → Prop) : Machine C ε σ :=
  { M with
    step := fun c s b s' => M.step c s b s' ∧ callOk c s b s'
    env := fun s s' => M.env s s' ∧ envOk s s'
    mayCrash := fun p s => M.mayCrash p s ∧ crashOk p s }

theorem closed_leads {M : Machine C ε σ} {keep : σ → Prop} {x : Config M} {envOk : σ → σ → Prop}
    {crashOk : Prog C ε M.Phase → σ → Prop} :
    (M.restrict (fun _ _ _ s' => keep s') envOk crashOk).Closed
      fun y => keep y.state ∧ M.Leads keep x ⟨y.rest, y.state⟩ where
  call h hstep := ⟨hstep.2, h.2.step (.call hstep.1) hstep.2⟩
  finish h := ⟨h.1, h.2.step .finish h.1⟩
  abort h := ⟨h.1, h.2.step .abort h.1⟩

/-- `M` with an observer's notes `γ` beside the state: `seen` after a call, `heard` after a
step of the others. -/
def watch (M : Machine C ε σ) (start : γ) (seen : {β : Type} → C β → σ → β → σ → γ → γ)
    (heard : σ → σ → γ → γ) : Machine C ε (σ × γ) :=
  { Phase := M.Phase
    boot := M.boot
    afterError := M.afterError
    body := M.body
    init := fun s => M.init s.1 ∧ s.2 = start
    step := fun c s b s' => M.step c s.1 b s'.1 ∧ s'.2 = seen c s.1 b s'.1 s.2
    env := fun s s' => M.env s.1 s'.1 ∧ s'.2 = heard s.1 s'.1 s.2
    mayCrash := fun p s => M.mayCrash p s.1 }

theorem Reachable.watch {M : Machine C ε σ} {x : Config M} (h : M.Reachable x) (start : γ)
    (seen : {β : Type} → C β → σ → β → σ → γ → γ) (heard : σ → σ → γ → γ) :
    ∃ notes, (M.watch start seen heard).Reachable ⟨x.rest, x.state, notes⟩ := by
  induction h with
  | start hs => exact ⟨start, .start ⟨hs, rfl⟩⟩
  | step _ hstep ih =>
    obtain ⟨notes, ih⟩ := ih
    cases hstep with
    | @call β c k s s' b h => exact ⟨seen c s b s' notes, ih.step (.call ⟨h, rfl⟩)⟩
    | finish => exact ⟨notes, ih.step .finish⟩
    | abort => exact ⟨notes, ih.step .abort⟩
    | crash h => exact ⟨notes, ih.step (.crash h)⟩
    | @env p s s' h => exact ⟨heard s s' notes, ih.step (.env ⟨h, rfl⟩)⟩

theorem Reachable.heard {M : Machine C ε σ} {start : γ}
    {seen : {β : Type} → C β → σ → β → σ → γ → γ} {heard : σ → σ → γ → γ}
    {p : Prog C ε M.Phase} {s s' : σ} {notes : γ}
    (h : (M.watch start seen heard).Reachable ⟨p, s, notes⟩) (he : M.env s s') :
    (M.watch start seen heard).Reachable ⟨p, s', heard s s' notes⟩ :=
  h.step (.env ⟨he, rfl⟩)

variable {P : Protocol C A}

def Ending {Φ : Type} (ready : A → Φ → Prop) (aborted : A → Prop) : Except ε Φ → A → Prop
  | .ok phase, a => ready a phase
  | .error _, a => aborted a

/-- A protocol every phase of `M` follows: `entry` is the memory a phase starts with, `ready`
the memories it may hand over to the next one with. -/
structure Follower (M : Machine C ε σ) (P : Protocol C A) where
  entry : M.Phase → A
  ready : A → M.Phase → Prop
  aborted : A → Prop
  answers : ∀ {β : Type} (c : C β) (s : σ) (b : β) (s' : σ), M.step c s b s' → P.answers c b
  follows : ∀ phase, Follows P (entry phase) (M.body phase) (Ending ready aborted)

def Follower.restrict {M : Machine C ε σ} (F : Follower M P)
    (callOk : {β : Type} → C β → σ → β → σ → Prop) (envOk : σ → σ → Prop)
    (crashOk : Prog C ε M.Phase → σ → Prop) : Follower (M.restrict callOk envOk crashOk) P :=
  { entry := F.entry, ready := F.ready, aborted := F.aborted
    answers := fun c s b s' h => F.answers c s b s' h.1
    follows := F.follows }

def Follower.watch {M : Machine C ε σ} (F : Follower M P) (start : γ)
    (seen : {β : Type} → C β → σ → β → σ → γ → γ) (heard : σ → σ → γ → γ) :
    Follower (M.watch start seen heard) P :=
  { entry := F.entry, ready := F.ready, aborted := F.aborted
    answers := fun c s b s' h => F.answers c s.1 b s'.1 h.1
    follows := F.follows }

/-- An invariant of the state and the protocol's memory. -/
structure Invariant (M : Machine C ε σ) (F : Follower M P) (I : A → σ → Prop) : Prop where
  init : ∀ s, M.init s → I (F.entry M.boot) s
  call : ∀ {β : Type} (a : A) (c : C β) (s : σ) (b : β) (s' : σ),
    P.allows a c → I a s → M.step c s b s' → I (P.next a c b) s'
  finish : ∀ a phase s, F.ready a phase → I a s → I (F.entry phase) s
  abort : ∀ a s, F.aborted a → I a s → I (F.entry M.afterError) s
  crash : ∀ a p s, Follows P a p (Ending F.ready F.aborted) → M.mayCrash p s → I a s →
    I (F.entry M.boot) s
  env : ∀ a s s', I a s → M.env s s' → I a s'

theorem Invariant.reachable {M : Machine C ε σ} {F : Follower M P} {I : A → σ → Prop}
    (hI : Invariant M F I) {x : Config M} (hx : M.Reachable x) :
    ∃ a, Follows P a x.rest (Ending F.ready F.aborted) ∧ I a x.state := by
  induction hx with
  | start hs => exact ⟨_, F.follows M.boot, hI.init _ hs⟩
  | step _ hstep ih =>
    obtain ⟨a, hrest, hinv⟩ := ih
    cases hstep with
    | call h => exact ⟨_, hrest.2 _ (F.answers _ _ _ _ h), hI.call a _ _ _ _ hrest.1 hinv h⟩
    | finish => exact ⟨_, F.follows _, hI.finish a _ _ hrest hinv⟩
    | abort => exact ⟨_, F.follows _, hI.abort a _ hrest hinv⟩
    | crash h => exact ⟨_, F.follows _, hI.crash a _ _ hrest h hinv⟩
    | env h => exact ⟨a, hrest, hI.env a _ _ hinv h⟩

/-- A second invariant `I`, kept wherever `J` is. -/
structure InvariantUnder (M : Machine C ε σ) (F : Follower M P) (J I : A → σ → Prop) : Prop where
  init : ∀ s, M.init s → I (F.entry M.boot) s
  call : ∀ {β : Type} (a : A) (c : C β) (s : σ) (b : β) (s' : σ), P.allows a c → J a s → I a s →
    M.step c s b s' → J (P.next a c b) s' → I (P.next a c b) s'
  finish : ∀ a phase s, F.ready a phase → J a s → I a s → I (F.entry phase) s
  abort : ∀ a s, F.aborted a → J a s → I a s → I (F.entry M.afterError) s
  crash : ∀ a p s, Follows P a p (Ending F.ready F.aborted) → M.mayCrash p s → J a s → I a s →
    I (F.entry M.boot) s
  env : ∀ a s s', J a s → I a s → M.env s s' → I a s'

theorem Invariant.and {M : Machine C ε σ} {F : Follower M P} {J I : A → σ → Prop}
    (hJ : Invariant M F J) (hI : InvariantUnder M F J I) :
    Invariant M F fun a s => J a s ∧ I a s where
  init s hs := ⟨hJ.init s hs, hI.init s hs⟩
  call a c s b s' hallow h hstep :=
    have hnext := hJ.call a c s b s' hallow h.1 hstep
    ⟨hnext, hI.call a c s b s' hallow h.1 h.2 hstep hnext⟩
  finish a phase s hready h := ⟨hJ.finish a phase s hready h.1, hI.finish a phase s hready h.1 h.2⟩
  abort a s habort h := ⟨hJ.abort a s habort h.1, hI.abort a s habort h.1 h.2⟩
  crash a p s hp hc h := ⟨hJ.crash a p s hp hc h.1, hI.crash a p s hp hc h.1 h.2⟩
  env a s s' h he := ⟨hJ.env a s s' h.1 he, hI.env a s s' h.1 h.2 he⟩

theorem Invariant.restrict {M : Machine C ε σ} {F : Follower M P} {I : A → σ → Prop}
    (hI : Invariant M F I) (callOk : {β : Type} → C β → σ → β → σ → Prop)
    (envOk : σ → σ → Prop) (crashOk : Prog C ε M.Phase → σ → Prop) :
    Invariant (M.restrict callOk envOk crashOk) (F.restrict callOk envOk crashOk) I where
  init := hI.init
  call a c s b s' hallow h hstep := hI.call a c s b s' hallow h hstep.1
  finish := hI.finish
  abort := hI.abort
  crash a p s hp hc h := hI.crash a p s hp hc.1 h
  env a s s' h he := hI.env a s s' h he.1

theorem Invariant.watch {M : Machine C ε σ} {F : Follower M P} {I : A → σ → Prop}
    (hI : Invariant M F I) (start : γ) (seen : {β : Type} → C β → σ → β → σ → γ → γ)
    (heard : σ → σ → γ → γ) :
    Invariant (M.watch start seen heard) (F.watch start seen heard) fun a s => I a s.1 where
  init s hs := hI.init s.1 hs.1
  call a c s b s' hallow h hstep := hI.call a c s.1 b s'.1 hallow h hstep.1
  finish a phase s := hI.finish a phase s.1
  abort a s := hI.abort a s.1
  crash a p s hp hc h := hI.crash a p s.1 hp hc h
  env a s s' h he := hI.env a s.1 s'.1 h he.1

/-- Every call of a run is one the protocol allows, issued under the invariant. -/
theorem Invariant.allowed {M : Machine C ε σ} {F : Follower M P} {I : A → σ → Prop}
    (hI : Invariant M F I) {β : Type} {c : C β} {k : β → Prog C ε M.Phase} {s : σ}
    (hx : M.Reachable ⟨.call c k, s⟩) : ∃ a, P.allows a c ∧ I a s := by
  obtain ⟨a, hrest, hinv⟩ := hI.reachable hx
  exact ⟨a, hrest.1, hinv⟩

end Machine

end Hunter.Effect
