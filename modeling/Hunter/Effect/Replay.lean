import Hunter.Effect.Machine
set_option autoImplicit false

namespace Hunter.Effect.Machine

universe u

variable {C : Type → Type u} {ε σ α : Type} {M : Machine C ε σ}

/-- How the outside answers a call, or nothing where the replay is to stop before it. -/
structure Reply (C : Type → Type u) (σ : Type) where
  answer : {β : Type} → C β → σ → Option (β × σ)

/-- Run a program to its end, or to the first call without a reply. -/
def replay (reply : Reply C σ) : Prog C ε α → σ → Prog C ε α × σ
  | .done a, s => (.done a, s)
  | .fail e, s => (.fail e, s)
  | .call c k, s =>
    match reply.answer c s with
    | some r => replay reply (k r.1) r.2
    | none => (.call c k, s)

def Faithful (M : Machine C ε σ) (reply : Reply C σ) : Prop :=
  ∀ {β : Type} (c : C β) (s : σ) (b : β) (s' : σ), reply.answer c s = some (b, s') → M.step c s b s'

theorem Closed.replay {R : Config M → Prop} (hR : M.Closed R) {reply : Reply C σ}
    (hreply : M.Faithful reply) {p : Prog C ε M.Phase} {s : σ} (h : R ⟨p, s⟩) :
    R ⟨(Machine.replay reply p s).1, (Machine.replay reply p s).2⟩ := by
  induction p generalizing s with
  | done a => exact h
  | fail e => exact h
  | call c k ih =>
    unfold Machine.replay
    split
    · rename_i r hr
      exact ih r.1 (hR.call h (hreply c s r.1 r.2 hr))
    · exact h

/-- Run the current phase, and where it ends enter the next one. -/
def advance (M : Machine C ε σ) (reply : Reply C σ) (x : Config M) : Config M :=
  let y := replay reply x.rest x.state
  match y.1 with
  | .done phase => ⟨M.body phase, y.2⟩
  | .fail _ => ⟨M.body M.afterError, y.2⟩
  | .call c k => ⟨.call c k, y.2⟩

theorem Closed.advance {R : Config M → Prop} (hR : M.Closed R) {reply : Reply C σ}
    (hreply : M.Faithful reply) {x : Config M} (h : R x) : R (M.advance reply x) := by
  have hrun := hR.replay hreply h
  unfold Machine.advance
  dsimp only
  split
  · rename_i phase heq
    rw [heq] at hrun
    exact hR.finish hrun
  · rename_i e heq
    rw [heq] at hrun
    exact hR.abort hrun
  · rename_i c k heq
    rw [heq] at hrun
    exact hrun

def advanceAll (M : Machine C ε σ) : List (Reply C σ) → Config M → Config M
  | [], x => x
  | reply :: rest, x => advanceAll M rest (M.advance reply x)

theorem Closed.advanceAll {R : Config M → Prop} (hR : M.Closed R) {replies : List (Reply C σ)}
    (hreplies : ∀ reply ∈ replies, M.Faithful reply) {x : Config M} (h : R x) :
    R (M.advanceAll replies x) := by
  induction replies generalizing x with
  | nil => exact h
  | cons reply rest ih =>
    exact ih (fun r hr => hreplies r (by simp [hr]))
      (hR.advance (hreplies reply (by simp)) h)

/-- Whether a program is about to issue a call that passes a test. -/
def nextIs (p : {β : Type} → C β → Bool) : Prog C ε α → Bool
  | .call c _ => p c
  | _ => false

theorem exists_next {p : {β : Type} → C β → Bool} {x : Prog C ε α} (h : nextIs p x = true) :
    ∃ (β : Type) (c : C β) (k : β → Prog C ε α), x = .call c k ∧ p c = true := by
  cases x with
  | done a => cases h
  | fail e => cases h
  | call c k => exact ⟨_, c, k, rfl, h⟩

variable {γ : Type}

def Reply.watch (reply : Reply C σ) (seen : {β : Type} → C β → σ → β → σ → γ → γ) :
    Reply C (σ × γ) where
  answer c s := (reply.answer c s.1).map fun r => (r.1, r.2, seen c s.1 r.1 r.2 s.2)

theorem Faithful.watch {reply : Reply C σ} (h : M.Faithful reply) {start : γ}
    {seen : {β : Type} → C β → σ → β → σ → γ → γ} {heard : σ → σ → γ → γ} :
    (M.watch start seen heard).Faithful (reply.watch seen) := by
  intro β c s b s' hr
  simp only [Reply.watch, Option.map_eq_some_iff, Prod.mk.injEq] at hr
  obtain ⟨r, hr, rfl, rfl⟩ := hr
  exact ⟨h c s.1 r.1 r.2 hr, rfl⟩

/-- The replies that pass a check; the replay stops at the first that does not. -/
def Reply.within (reply : Reply C σ) (check : {β : Type} → C β → σ → β → σ → Bool) :
    Reply C σ where
  answer c s := (reply.answer c s).filter fun r => check c s r.1 r.2

theorem Faithful.within {reply : Reply C σ} (h : M.Faithful reply)
    {check : {β : Type} → C β → σ → β → σ → Bool}
    {callOk : {β : Type} → C β → σ → β → σ → Prop} {envOk : σ → σ → Prop}
    {crashOk : Prog C ε M.Phase → σ → Prop}
    (hcheck : ∀ {β : Type} (c : C β) (s : σ) (b : β) (s' : σ),
      check c s b s' = true → callOk c s b s') :
    (M.restrict callOk envOk crashOk).Faithful (reply.within check) := by
  intro β c s b s' hr
  simp only [Reply.within, Option.filter_eq_some_iff] at hr
  exact ⟨h c s b s' hr.1, hcheck c s b s' hr.2⟩

end Hunter.Effect.Machine
