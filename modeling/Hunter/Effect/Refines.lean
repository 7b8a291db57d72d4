import Hunter.Effect.Embed
import Hunter.Effect.Runs
set_option autoImplicit false

namespace Hunter.Effect

universe u v

/-- Steps of a wide family of calls, and those of a narrow one on what `proj` keeps of the state. -/
structure Views (D : Type → Type v) (C : Type → Type u) (τ σ : Type) where
  wide : {β : Type} → D β → τ → β → τ → Prop
  narrow : {β : Type} → C β → σ → β → σ → Prop
  proj : τ → σ

variable {D : Type → Type v} {C : Type → Type u} {ε τ σ α β γ δ : Type}

/-- Each run of `p` is, as far as is kept of it, a run of `q` that returns `f` of the result. -/
def Refines (V : Views D C τ σ) (f : α → β) (p : Prog D ε α) (q : Prog C ε β) : Prop :=
  ∀ x r y, Runs V.wide p x r y → Runs V.narrow q (V.proj x) (r.map f) (V.proj y)

/-- However it ends, the program leaves what is kept as it is. -/
def Unseen (V : Views D C τ σ) (p : Prog D ε α) : Prop :=
  ∀ x r y, Runs V.wide p x r y → V.proj y = V.proj x

section
variable {V : Views D C τ σ}

theorem refines_done (f : α → β) (a : α) :
    Refines V f (.done a : Prog D ε α) (.done (f a)) := by
  intro x r y hrun
  cases hrun
  exact .done

theorem refines_bind {f : α → β} {g : γ → δ} {p : Prog D ε α} {q : Prog C ε β}
    {k : α → Prog D ε γ} {l : β → Prog C ε δ} (hp : Refines V f p q)
    (hk : ∀ a, Refines V g (k a) (l (f a))) : Refines V g (p >>= k) (q >>= l) := by
  intro x r y hrun
  rcases hrun.of_bind with ⟨a, z, hleft, hright⟩ | ⟨e, rfl, hleft⟩
  · exact (hp x _ z hleft).bind (hk a z r y hright)
  · exact (hp x _ y hleft).bind_error

theorem refines_of_bind_done {f : α → β} {p : Prog D ε α} {q : Prog C ε β}
    (h : Refines V f p (q >>= .done)) : Refines V f p q := by
  rw [Prog.bind_done] at h
  exact h

theorem refines_call {g : γ → δ} {c : D α} {k : α → Prog D ε γ} {q : Prog C ε δ}
    (hc : ∀ x a y, V.wide c x a y → V.proj y = V.proj x) (hk : ∀ a, Refines V g (k a) q) :
    Refines V g (.call c k) q := by
  intro x r y hrun
  cases hrun with
  | call hstep hrest =>
    rw [← hc _ _ _ hstep]
    exact hk _ _ r y hrest

theorem refines_embed {into : {β : Type} → C β → D β} (p : Prog C ε α)
    (hinto : ∀ {β : Type} (c : C β) (x : τ) (b : β) (y : τ),
      V.wide (into c) x b y → V.narrow c (V.proj x) b (V.proj y)) :
    Refines V id (p.embed into) p := by
  induction p with
  | done a => exact refines_done id a
  | fail e =>
    intro x r y hrun
    cases hrun
    exact .fail
  | call c k ih =>
    intro x r y hrun
    cases hrun with
    | call hstep hrest => exact .call (hinto c _ _ _ hstep) (ih _ _ _ _ hrest)

theorem refines_try {f : α → β} {p : Prog D ε α} {c : C (Except ε β)} (hp : Unseen V p)
    (hc : ∀ s r, V.narrow c s r s) : Refines V f p (Prog.try_ c) := by
  intro x r y hrun
  rw [hp x r y hrun]
  refine .call (hc _ (r.map f)) ?_
  cases r with
  | ok a => exact .done
  | error e => exact .fail

theorem unseen_of_only {p : Prog D ε α}
    (hp : Only (fun {β} (c : D β) => ∀ x b y, V.wide c x b y → V.proj y = V.proj x) p) :
    Unseen V p :=
  fun _ _ _ hrun => hrun.keeps (R := fun x y => V.proj y = V.proj x) (fun _ => rfl)
    (fun _ _ _ h h' => h'.trans h) (fun _ _ _ _ hc hstep => hc _ _ _ hstep) hp

end

end Hunter.Effect
