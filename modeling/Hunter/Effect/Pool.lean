import Hunter.Effect.Runs
import Mathlib.Logic.Function.Basic
set_option autoImplicit false

namespace Hunter.Effect
open Function (update)

universe u

/-- Threads that take turns, call by call, on one state. What a thread returns is the task it
goes on with. -/
structure Pool (C : Type → Type u) (ε σ : Type) where
  Task : Type
  body : Task → Prog C ε (Option Task)
  init : σ → Prop
  starts : Task → σ → Prop
  step : {β : Type} → Nat → C β → σ → β → σ → Prop
  /-- What a thread leaves behind when it is gone, at its end or dropped before. -/
  leave : Nat → Prog C ε (Option Task) → σ → σ
  mayLeave : Nat → Prog C ε (Option Task) → σ → Prop
  env : σ → σ → Prop
  restart : σ → σ → Prop

namespace Pool
variable {C : Type → Type u} {ε σ γ A : Type}

/-- The threads by their number, the number of the next one, and the state. -/
structure Config (M : Pool C ε σ) where
  threads : Nat → Option (Prog C ε (Option M.Task))
  next : Nat
  state : σ

inductive Step (M : Pool C ε σ) : Config M → Config M → Prop
  | start {threads : Nat → Option (Prog C ε (Option M.Task))} {n : Nat} {s : σ} {t : M.Task} :
      M.starts t s → Step M ⟨threads, n, s⟩ ⟨update threads n (some (M.body t)), n + 1, s⟩
  | call {threads : Nat → Option (Prog C ε (Option M.Task))} {n i : Nat} {s s' : σ} {β : Type}
      {c : C β} {k : β → Prog C ε (Option M.Task)} {b : β} : threads i = some (.call c k) →
      M.step i c s b s' → Step M ⟨threads, n, s⟩ ⟨update threads i (some (k b)), n, s'⟩
  | go {threads : Nat → Option (Prog C ε (Option M.Task))} {n i : Nat} {s : σ} {t : M.Task} :
      threads i = some (.done (some t)) →
      Step M ⟨threads, n, s⟩ ⟨update threads i (some (M.body t)), n, s⟩
  | leave {threads : Nat → Option (Prog C ε (Option M.Task))} {n i : Nat} {s : σ}
      {p : Prog C ε (Option M.Task)} : threads i = some p → M.mayLeave i p s →
      Step M ⟨threads, n, s⟩ ⟨update threads i none, n, M.leave i p s⟩
  | env {threads : Nat → Option (Prog C ε (Option M.Task))} {n : Nat} {s s' : σ} :
      M.env s s' → Step M ⟨threads, n, s⟩ ⟨threads, n, s'⟩
  | restart {threads : Nat → Option (Prog C ε (Option M.Task))} {n : Nat} {s s' : σ} :
      M.restart s s' → Step M ⟨threads, n, s⟩ ⟨fun _ => none, n, s'⟩

inductive Reachable (M : Pool C ε σ) : Config M → Prop
  | start {s : σ} : M.init s → Reachable M ⟨fun _ => none, 0, s⟩
  | step {x y : Config M} : Reachable M x → Step M x y → Reachable M y

/-- A run from `x` on whose steps all meet `keep`. -/
inductive Leads (M : Pool C ε σ) (keep : σ → σ → Prop) (x : Config M) : Config M → Prop
  | refl : Leads M keep x x
  | step {y z : Config M} : Leads M keep x y → Step M y z → keep y.state z.state →
      Leads M keep x z

theorem Leads.reachable {M : Pool C ε σ} {keep : σ → σ → Prop} {x y : Config M}
    (h : M.Leads keep x y) (hx : M.Reachable x) : M.Reachable y := by
  induction h with
  | refl => exact hx
  | step _ hstep _ ih => exact ih.step hstep

/-- `M` with an observer's notes `γ` beside the state: `seen` after a thread's call. -/
def watch (M : Pool C ε σ) (start : γ) (seen : {β : Type} → Nat → C β → σ → β → σ → γ → γ) :
    Pool C ε (σ × γ) :=
  { Task := M.Task
    body := M.body
    init := fun s => M.init s.1 ∧ s.2 = start
    starts := fun t s => M.starts t s.1
    step := fun i c s b s' => M.step i c s.1 b s'.1 ∧ s'.2 = seen i c s.1 b s'.1 s.2
    leave := fun i p s => (M.leave i p s.1, s.2)
    mayLeave := fun i p s => M.mayLeave i p s.1
    env := fun s s' => M.env s.1 s'.1 ∧ s'.2 = s.2
    restart := fun s s' => M.restart s.1 s'.1 ∧ s'.2 = s.2 }

theorem Reachable.watch {M : Pool C ε σ} {x : Config M} (h : M.Reachable x) (start : γ)
    (seen : {β : Type} → Nat → C β → σ → β → σ → γ → γ) :
    ∃ notes, (M.watch start seen).Reachable ⟨x.threads, x.next, x.state, notes⟩ := by
  induction h with
  | start hs => exact ⟨start, .start ⟨hs, rfl⟩⟩
  | step _ hstep ih =>
    obtain ⟨notes, ih⟩ := ih
    cases hstep with
    | start h => exact ⟨notes, ih.step (.start h)⟩
    | @call _ n i s s' β c k b hthread h =>
      exact ⟨seen i c s b s' notes, ih.step (.call hthread ⟨h, rfl⟩)⟩
    | go h => exact ⟨notes, ih.step (.go h)⟩
    | leave hthread h => exact ⟨notes, ih.step (.leave hthread h)⟩
    | @env _ n s s' h =>
      have henv : (M.watch start seen).env (s, notes) (s', notes) := ⟨h, rfl⟩
      exact ⟨notes, ih.step (.env henv)⟩
    | @restart _ n s s' h =>
      have hre : (M.watch start seen).restart (s, notes) (s', notes) := ⟨h, rfl⟩
      exact ⟨notes, ih.step (.restart hre)⟩

theorem Reachable.call {M : Pool C ε σ} {threads : Nat → Option (Prog C ε (Option M.Task))}
    {n i : Nat} {s s' : σ} {β : Type} {c : C β} {k : β → Prog C ε (Option M.Task)} {b : β}
    (h : M.Reachable ⟨update threads i (some (.call c k)), n, s⟩) (hstep : M.step i c s b s') :
    M.Reachable ⟨update threads i (some (k b)), n, s'⟩ := by
  have hnext := h.step (.call (Function.update_self i _ _) hstep)
  rwa [Function.update_idem] at hnext

theorem Leads.call {M : Pool C ε σ} {keep : σ → σ → Prop} {x : Config M}
    {threads : Nat → Option (Prog C ε (Option M.Task))} {n i : Nat} {s s' : σ} {β : Type}
    {c : C β} {k : β → Prog C ε (Option M.Task)} {b : β}
    (h : M.Leads keep x ⟨update threads i (some (.call c k)), n, s⟩) (hstep : M.step i c s b s')
    (hkeep : keep s s') : M.Leads keep x ⟨update threads i (some (k b)), n, s'⟩ := by
  have hnext := h.step (.call (Function.update_self i _ _) hstep) hkeep
  rwa [Function.update_idem] at hnext

theorem Reachable.go {M : Pool C ε σ} {threads : Nat → Option (Prog C ε (Option M.Task))}
    {n i : Nat} {s : σ} {t : M.Task}
    (h : M.Reachable ⟨update threads i (some (.done (some t))), n, s⟩) :
    M.Reachable ⟨update threads i (some (M.body t)), n, s⟩ := by
  have hnext := h.step (.go (Function.update_self i _ _))
  rwa [Function.update_idem] at hnext

theorem Reachable.runs {M : Pool C ε σ} {threads : Nat → Option (Prog C ε (Option M.Task))}
    {n i : Nat} {p : Prog C ε (Option M.Task)} {s s' : σ} {r : Option M.Task}
    (h : M.Reachable ⟨update threads i (some p), n, s⟩) (hrun : Runs (M.step i) p s (.ok r) s') :
    M.Reachable ⟨update threads i (some (.done r)), n, s'⟩ := by
  induction p generalizing s with
  | done a =>
    cases hrun
    exact h
  | fail e => cases hrun
  | call c k ih =>
    cases hrun with
    | call hstep hrest => exact ih _ (h.call hstep) hrest

/-- How a thread may end: going on with a task from a memory `ready` for it, or for good. -/
def Ending {M : Pool C ε σ} (ready : A → M.Task → Prop) (mayEnd : A → Prop) :
    Except ε (Option M.Task) → A → Prop
  | .ok (some t), a => ready a t
  | _, a => mayEnd a

theorem ending_of {M : Pool C ε σ} {ready : A → M.Task → Prop} {mayEnd : A → Prop}
    {r : Except ε (Option M.Task)} {a : A} (hready : ∀ t, r = .ok (some t) → ready a t)
    (hend : mayEnd a) : Ending ready mayEnd r a := by
  rcases r with e | t
  · exact hend
  · cases t with
    | none => exact hend
    | some t => exact hready t rfl

/-- A protocol every thread of `M` follows; `entry` is the memory a task starts with. -/
structure Follower (M : Pool C ε σ) (P : Protocol C A) where
  entry : M.Task → A
  ready : A → M.Task → Prop
  mayEnd : A → Prop
  answers : ∀ {β : Type} (i : Nat) (c : C β) (s : σ) (b : β) (s' : σ), M.step i c s b s' →
    P.answers c b
  follows : ∀ t, Follows P (entry t) (M.body t) (Ending ready mayEnd)

variable {P : Protocol C A}

def Follower.Ending {M : Pool C ε σ} (F : Follower M P) :
    Except ε (Option M.Task) → A → Prop := Pool.Ending F.ready F.mayEnd

/-- `J` of the state and the number of threads so far, `I` of each thread's own memory. No
thread's step breaks what another one relies on. -/
structure Invariant (M : Pool C ε σ) (F : Follower M P) (J : Nat → σ → Prop)
    (I : A → Nat → σ → Prop) : Prop where
  init : ∀ s, M.init s → J 0 s
  start : ∀ n t s, M.starts t s → J n s → J (n + 1) s ∧ I (F.entry t) n s
  call : ∀ {β : Type} (n i : Nat) (a : A) (c : C β) (s : σ) (b : β) (s' : σ), i < n →
    P.allows a c → J n s → I a i s → M.step i c s b s' → J n s' ∧ I (P.next a c b) i s'
  frame : ∀ {β : Type} (n i j : Nat) (a a' : A) (c : C β) (s : σ) (b : β) (s' : σ), i ≠ j →
    P.allows a c → J n s → I a i s → I a' j s → M.step i c s b s' → I a' j s'
  go : ∀ a t i s, F.ready a t → I a i s → I (F.entry t) i s
  leave : ∀ n i a p s, Follows P a p F.Ending → M.mayLeave i p s → J n s → I a i s →
    J n (M.leave i p s) ∧ ∀ j a', j ≠ i → I a' j s → I a' j (M.leave i p s)
  env : ∀ n s s', J n s → M.env s s' → J n s' ∧ ∀ a i, I a i s → I a i s'
  restart : ∀ n s s', J n s → M.restart s s' → J n s'

/-- Each thread follows the protocol from a memory `I` holds of. -/
def Followed {M : Pool C ε σ} (F : Follower M P) (I : A → Nat → σ → Prop)
    (threads : Nat → Option (Prog C ε (Option M.Task))) (n : Nat) (s : σ) : Prop :=
  ∀ i p, threads i = some p → i < n ∧ ∃ a, Follows P a p F.Ending ∧ I a i s

section
variable {M : Pool C ε σ} {F : Follower M P} {J : Nat → σ → Prop} {I : A → Nat → σ → Prop}
  {threads : Nat → Option (Prog C ε (Option M.Task))} {n i : Nat} {s s' : σ}

theorem Followed.update {p : Option (Prog C ε (Option M.Task))} (h : Followed F I threads n s)
    (hown : ∀ q, p = some q → i < n ∧ ∃ a, Follows P a q F.Ending ∧ I a i s')
    (hothers : ∀ j a, j ≠ i → I a j s → I a j s') :
    Followed F I (Function.update threads i p) n s' := by
  intro j q hq
  by_cases hj : j = i
  · subst hj
    rw [Function.update_self] at hq
    exact hown q hq
  · rw [Function.update_of_ne hj] at hq
    obtain ⟨hlt, a, hfollows, ha⟩ := h j q hq
    exact ⟨hlt, a, hfollows, hothers j a hj ha⟩

theorem Followed.start {p : Prog C ε (Option M.Task)} {a : A} (h : Followed F I threads n s)
    (hp : Follows P a p F.Ending) (ha : I a n s) :
    Followed F I (Function.update threads n (some p)) (n + 1) s := by
  intro j q hq
  by_cases hj : j = n
  · subst hj
    rw [Function.update_self] at hq
    cases hq
    exact ⟨Nat.lt_succ_self _, a, hp, ha⟩
  · rw [Function.update_of_ne hj] at hq
    obtain ⟨hlt, hfollowed⟩ := h j q hq
    exact ⟨Nat.lt_succ_of_lt hlt, hfollowed⟩

theorem Invariant.step (hI : Invariant M F J I) {x y : Config M} (hstep : M.Step x y)
    (hJ : J x.next x.state) (hx : Followed F I x.threads x.next x.state) :
    J y.next y.state ∧ Followed F I y.threads y.next y.state := by
  cases hstep with
  | @start threads n s t hstart =>
    obtain ⟨hJ', hentry⟩ := hI.start n t s hstart hJ
    exact ⟨hJ', hx.start (F.follows t) hentry⟩
  | @call threads n i s s' β c k b hthread h =>
    obtain ⟨hlt, a, hfollows, ha⟩ := hx i _ hthread
    obtain ⟨hJ', ha'⟩ := hI.call n i a c s b s' hlt hfollows.1 hJ ha h
    refine ⟨hJ', hx.update ?_ fun j a' hj ha'' =>
      hI.frame n i j a a' c s b s' hj.symm hfollows.1 hJ ha ha'' h⟩
    rintro q ⟨⟩
    exact ⟨hlt, _, hfollows.2 b (F.answers i c s b s' h), ha'⟩
  | @go threads n i s t hthread =>
    obtain ⟨hlt, a, hready, ha⟩ := hx i _ hthread
    refine ⟨hJ, hx.update ?_ fun _ _ _ ha' => ha'⟩
    rintro q ⟨⟩
    exact ⟨hlt, _, F.follows t, hI.go a t i s hready ha⟩
  | @leave threads n i s p hthread hmay =>
    obtain ⟨hlt, a, hfollows, ha⟩ := hx i p hthread
    obtain ⟨hJ', hothers⟩ := hI.leave n i a p s hfollows hmay hJ ha
    exact ⟨hJ', hx.update nofun hothers⟩
  | @env threads n s s' henv =>
    obtain ⟨hJ', hall⟩ := hI.env n s s' hJ henv
    refine ⟨hJ', fun j q hq => ?_⟩
    obtain ⟨hlt, a, hfollows, ha⟩ := hx j q hq
    exact ⟨hlt, a, hfollows, hall a j ha⟩
  | @restart threads n s s' hre => exact ⟨hI.restart n s s' hJ hre, nofun⟩

/-- What the threads' steps keep, every run keeps. -/
theorem Invariant.reachable (hI : Invariant M F J I) {x : Config M} (hx : M.Reachable x) :
    J x.next x.state ∧ Followed F I x.threads x.next x.state := by
  induction hx with
  | start hs => exact ⟨hI.init _ hs, nofun⟩
  | step _ hstep ih => exact hI.step hstep ih.1 ih.2

/-- Every call of a run is one the protocol allows, issued under the invariant. -/
theorem Invariant.allowed (hI : Invariant M F J I) {x : Config M} (hx : M.Reachable x) {i : Nat}
    {β : Type} {c : C β} {k : β → Prog C ε (Option M.Task)}
    (hthread : x.threads i = some (.call c k)) :
    J x.next x.state ∧ ∃ a, P.allows a c ∧ I a i x.state := by
  obtain ⟨hJ, hfollowed⟩ := hI.reachable hx
  obtain ⟨-, a, hfollows, ha⟩ := hfollowed i _ hthread
  exact ⟨hJ, a, hfollows.1, ha⟩

/-- What a thread's own calls alone bring about, and its leaving ends, is owed by a thread that is
still there. -/
theorem Invariant.present (hI : Invariant M F J I) {O : Nat → σ → Prop}
    (hinit : ∀ i s, M.init s → ¬ O i s)
    (hcall : ∀ {β : Type} (i j : Nat) (a : A) (c : C β) (s : σ) (b : β) (s' : σ), i ≠ j →
      P.allows a c → I a i s → M.step i c s b s' → O j s' → O j s)
    (hleave : ∀ i j a p s, Follows P a p F.Ending → M.mayLeave i p s → I a i s →
      O j (M.leave i p s) → j ≠ i ∧ O j s)
    (henv : ∀ i s s', M.env s s' → O i s' → O i s)
    (hrestart : ∀ i s s', M.restart s s' → ¬ O i s')
    {x : Config M} (hx : M.Reachable x) {i : Nat} (ho : O i x.state) :
    ∃ p, x.threads i = some p := by
  induction hx with
  | start hs => exact absurd ho (hinit i _ hs)
  | step hreach hstep ih =>
    have hothers : ∀ {threads : Nat → Option (Prog C ε (Option M.Task))} (k : Nat)
        (q : Prog C ε (Option M.Task)), (k ≠ i → ∃ p, threads i = some p) →
        ∃ p, Function.update threads k (some q) i = some p := by
      intro threads k q hp
      by_cases hk : k = i
      · subst hk
        exact ⟨q, Function.update_self _ _ _⟩
      · obtain ⟨p, hp⟩ := hp hk
        exact ⟨p, (Function.update_of_ne (Ne.symm hk) _ _).trans hp⟩
    cases hstep with
    | start h => exact hothers _ _ fun _ => ih ho
    | @call threads n k s s' β c f b hthread h =>
      obtain ⟨-, a, hallow, ha⟩ := hI.allowed hreach hthread
      exact hothers k _ fun hk => ih (hcall k i a c s b s' hk hallow ha h ho)
    | go h => exact hothers _ _ fun _ => ih ho
    | @leave threads n k s p hthread hmay =>
      obtain ⟨-, a, hfollows, ha⟩ := (hI.reachable hreach).2 k p hthread
      obtain ⟨hne, ho⟩ := hleave k i a p s hfollows hmay ha ho
      obtain ⟨q, hq⟩ := ih ho
      exact ⟨q, (Function.update_of_ne hne _ _).trans hq⟩
    | @env threads n s s' h => exact ih (henv i s s' h ho)
    | @restart threads n s s' h => exact absurd ho (hrestart i s s' h)

end

end Pool

end Hunter.Effect
