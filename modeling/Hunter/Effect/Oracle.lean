import Hunter.Effect.Runs
set_option autoImplicit false

namespace Hunter.Effect

universe u

variable {C : Type → Type u} {ε σ α β : Type}

/-- An outside that answers the same call in the same state always the same way. -/
structure Oracle (C : Type → Type u) (σ : Type) where
  answer : {β : Type} → C β → σ → β × σ

namespace Oracle
variable (o : Oracle C σ) (test : {β : Type} → C β → Bool)

def eval : Prog C ε α → σ → Except ε α × σ
  | .done a, s => (.ok a, s)
  | .fail e, s => (.error e, s)
  | .call c k, s => eval (k (o.answer c s).1) (o.answer c s).2

/-- Whether a call that meets `test` is issued on the way. -/
def issues : Prog C ε α → σ → Bool
  | .done _, _ | .fail _, _ => false
  | .call c k, s => test c || issues (k (o.answer c s).1) (o.answer c s).2

def Obeys (step : {β : Type} → C β → σ → β → σ → Prop) : Prop :=
  ∀ {β : Type} (c : C β) (s : σ), step c s (o.answer c s).1 (o.answer c s).2

variable {o} {test}

theorem Obeys.runs {step : {β : Type} → C β → σ → β → σ → Prop} (h : o.Obeys step)
    (p : Prog C ε α) (s : σ) : Runs step p s (o.eval p s).1 (o.eval p s).2 := by
  induction p generalizing s with
  | done a => exact .done
  | fail e => exact .fail
  | call c k ih => exact .call (h c s) (ih _ _)

end Oracle

/-- Every call of the program is one of `ok`, and what it returns meets `Q`. -/
def Within (ok : {β : Type} → C β → Prop) (Q : α → Prop) : Prog C ε α → Prop
  | .done a => Q a
  | .fail _ => True
  | .call c k => ok c ∧ ∀ b, Within ok Q (k b)

section
variable {ok : {β : Type} → C β → Prop} {Q : α → Prop}

theorem Within.bind {p : Prog C ε α} {f : α → Prog C ε β} {R : β → Prop} (hp : Within ok Q p)
    (hf : ∀ a, Q a → Within ok R (f a)) : Within ok R (p >>= f) := by
  induction p with
  | done a => exact hf a hp
  | fail e => trivial
  | call c k ih => exact ⟨hp.1, fun b => ih b (hp.2 b)⟩

/-- What leaves the state as it is at each call leaves it so at the end. -/
theorem Within.eval {step : {β : Type} → C β → σ → β → σ → Prop} {o : Oracle C σ}
    {p : Prog C ε α} (hp : Within ok Q p) (ho : o.Obeys step)
    (hok : ∀ {γ : Type} (c : C γ) (s : σ) (b : γ) (t : σ), ok c → step c s b t → t = s) (s : σ) :
    (o.eval p s).2 = s ∧ ∀ a, (o.eval p s).1 = .ok a → Q a := by
  induction p with
  | done a =>
    refine ⟨rfl, fun b hb => ?_⟩
    cases hb
    exact hp
  | fail e => exact ⟨rfl, nofun⟩
  | call c k ih =>
    have hsame := hok c s _ _ hp.1 (ho c s)
    rw [Oracle.eval, hsame]
    exact ih _ (hp.2 _)

end

section
variable (test : {β : Type} → C β → Bool)

/-- Whatever it is answered, the program issues a call that meets `test`. -/
def Surely : Prog C ε α → Prop
  | .done _ | .fail _ => False
  | .call c k => test c = true ∨ ∀ b, Surely (k b)

/-- The same program twice, but where the first is sure to issue a call that meets `test`. -/
inductive PartsAt : Prog C ε α → Prog C ε α → Prop
  | done (a : α) : PartsAt (.done a) (.done a)
  | fail (e : ε) : PartsAt (.fail e) (.fail e)
  | call {γ : Type} {c : C γ} {k k' : γ → Prog C ε α} :
      (∀ b, PartsAt (k b) (k' b)) → PartsAt (.call c k) (.call c k')
  | parted {p q : Prog C ε α} : Surely test p → PartsAt p q

end

section
variable {test : {β : Type} → C β → Bool}

theorem Surely.bind {p : Prog C ε α} {f : α → Prog C ε β} (h : Surely test p) :
    Surely test (p >>= f) := by
  induction p with
  | done a => exact h.elim
  | fail e => exact h.elim
  | call c k ih =>
    rcases h with hc | hk
    · exact Or.inl hc
    · exact Or.inr fun b => ih b (hk b)

theorem Surely.issues {o : Oracle C σ} {p : Prog C ε α} {s : σ} (h : Surely test p) :
    o.issues test p s = true := by
  induction p generalizing s with
  | done a => exact h.elim
  | fail e => exact h.elim
  | call c k ih =>
    rw [Oracle.issues, Bool.or_eq_true]
    rcases h with hc | hk
    · exact Or.inl hc
    · exact Or.inr (ih _ (hk _))

namespace PartsAt

theorem refl (p : Prog C ε α) : PartsAt test p p := by
  induction p with
  | done a => exact .done a
  | fail e => exact .fail e
  | call c k ih => exact .call ih

theorem bind {p q : Prog C ε α} {f g : α → Prog C ε β} (h : PartsAt test p q)
    (hfg : ∀ a, PartsAt test (f a) (g a)) : PartsAt test (p >>= f) (q >>= g) := by
  induction h with
  | done a => exact hfg a
  | fail e => exact .fail e
  | call _ ih => exact .call ih
  | parted hp => exact .parted hp.bind

/-- Where no such call is issued, both end alike. -/
theorem eval_eq {o : Oracle C σ} {p q : Prog C ε α} (h : PartsAt test p q) {s : σ}
    (hno : o.issues test p s = false) : o.eval p s = o.eval q s := by
  induction h generalizing s with
  | done a => rfl
  | fail e => rfl
  | call _ ih =>
    rw [Oracle.issues, Bool.or_eq_false_iff] at hno
    exact ih _ hno.2
  | parted hp =>
    rw [hp.issues] at hno
    cases hno

end PartsAt

end

end Hunter.Effect
