import Hunter.Effect.Machine
set_option autoImplicit false

namespace Hunter.Effect

universe u

/-! Programs every call of which is followed as it should be. -/

section
variable {C : Type → Type u} {ε ε' α β : Type}

/-- A property of a call and of what a program does with its answer, whatever comes after. -/
structure Continued (P : {ε α β : Type} → C β → (β → Prog C ε α) → Prop) : Prop where
  bind : ∀ {ε α β γ : Type} {c : C γ} {k : γ → Prog C ε α} {f : α → Prog C ε β},
    P c k → P c fun b => k b >>= f
  attempt : ∀ {ε ε' α γ : Type} {c : C γ} {k : γ → Prog C ε α},
    P c k → P c fun b => ((k b).attempt : Prog C ε' (Except ε α))

def Each (P : {ε α β : Type} → C β → (β → Prog C ε α) → Prop) : Prog C ε α → Prop
  | .done _ | .fail _ => True
  | .call c k => P c k ∧ ∀ b, Each P (k b)

variable {P : {ε α β : Type} → C β → (β → Prog C ε α) → Prop} (hP : Continued P)
include hP

theorem Continued.each_bind {p : Prog C ε α} {f : α → Prog C ε β} (hp : Each P p)
    (hf : ∀ x, Each P (f x)) : Each P (p >>= f) := by
  induction p with
  | done x => exact hf x
  | fail e => trivial
  | call c k ih => exact ⟨hP.bind hp.1, fun b => ih b (hp.2 b)⟩

theorem Continued.each_attempt {p : Prog C ε α} (hp : Each P p) :
    Each P (p.attempt : Prog C ε' (Except ε α)) := by
  induction p with
  | done x => trivial
  | fail e => trivial
  | call c k ih => exact ⟨hP.attempt hp.1, fun b => ih b (hp.2 b)⟩

end

/-- What holds of each call of every phase holds of each call a run comes to. -/
theorem Machine.Reachable.each {C : Type → Type u} {ε σ : Type} {M : Machine C ε σ}
    {P : {ε α β : Type} → C β → (β → Prog C ε α) → Prop} (hP : ∀ phase, Each P (M.body phase))
    {x : Config M} (hx : M.Reachable x) : Each P x.rest := by
  induction hx with
  | start => exact hP _
  | step _ hstep ih =>
    cases hstep with
    | call => exact ih.2 _
    | finish | abort | crash => exact hP _
    | env => exact ih

end Hunter.Effect
