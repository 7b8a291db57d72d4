import Mathlib.Logic.Relation
set_option autoImplicit false

namespace Hunter.Effect

universe u

/-- Programs over a family of calls: they end with a value, end with an error, or issue
a call and continue with its answer. -/
inductive Prog (C : Type → Type u) (ε α : Type) : Type (max 1 u)
  | done (a : α)
  | fail (e : ε)
  | call {β : Type} (c : C β) (k : β → Prog C ε α)

section
variable {C : Type → Type u} {ε ε' α β : Type}

namespace Prog

def bind : Prog C ε α → (α → Prog C ε β) → Prog C ε β
  | done a, f => f a
  | fail e, _ => fail e
  | call c k, f => call c fun b => (k b).bind f

instance : Monad (Prog C ε) where
  pure := done
  bind := bind

/-- Run a program to its end and hand on how it ended. -/
def attempt : Prog C ε α → Prog C ε' (Except ε α)
  | done a => done (.ok a)
  | fail e => done (.error e)
  | call c k => call c fun b => (k b).attempt

def ask (c : C α) : Prog C ε α := call c done

def try_ (c : C (Except ε α)) : Prog C ε α :=
  call c fun
    | .ok a => done a
    | .error e => fail e

@[simp] theorem pure_eq (a : α) : (pure a : Prog C ε α) = done a := rfl
@[simp] theorem done_bind (a : α) (f : α → Prog C ε β) : (done a >>= f) = f a := rfl
@[simp] theorem fail_bind (e : ε) (f : α → Prog C ε β) : (fail e >>= f) = fail e := rfl
@[simp] theorem call_bind {γ : Type} (c : C γ) (k : γ → Prog C ε α) (f : α → Prog C ε β) :
    (call c k >>= f) = call c fun b => k b >>= f := rfl
@[simp] theorem ask_bind (c : C α) (f : α → Prog C ε β) : (ask c >>= f) = call c f := rfl
theorem bind_assoc {γ : Type} (p : Prog C ε α) (f : α → Prog C ε β) (g : β → Prog C ε γ) :
    p >>= f >>= g = p >>= fun a => f a >>= g := by
  induction p with
  | done a => rfl
  | fail e => rfl
  | call c k ih => exact congrArg (call c) (funext ih)

theorem bind_done (p : Prog C ε α) : p >>= .done = p := by
  induction p with
  | done a => rfl
  | fail e => rfl
  | call c k ih => exact congrArg (call c) (funext ih)

@[simp] theorem attempt_done (a : α) :
    (done a : Prog C ε α).attempt = (done (.ok a) : Prog C ε' _) := rfl
@[simp] theorem attempt_fail (e : ε) :
    (fail e : Prog C ε α).attempt = (done (.error e) : Prog C ε' _) := rfl
@[simp] theorem attempt_call {γ : Type} (c : C γ) (k : γ → Prog C ε α) :
    (call c k).attempt = (call c fun b => (k b).attempt : Prog C ε' _) := rfl

end Prog

/-- Which calls may be issued when, over a memory of the answers so far, and what a call
can answer at all. -/
structure Protocol (C : Type → Type u) (A : Type) where
  allows : {β : Type} → A → C β → Prop
  answers : {β : Type} → C β → β → Prop
  next : {β : Type} → A → C β → β → A

variable {A : Type} (P : Protocol C A)

/-- From memory `a` a program issues only allowed calls, whatever they answer, and ends in `Q`. -/
def Follows : A → Prog C ε α → (Except ε α → A → Prop) → Prop
  | a, .done x, Q => Q (.ok x) a
  | a, .fail e, Q => Q (.error e) a
  | a, .call c k, Q =>
    P.allows a c ∧ ∀ b, P.answers c b → Follows (P.next a c b) (k b) Q

/-- What holds of an end, with errors passed on to `Q`. -/
def onOk (f : α → A → Prop) (Q : Except ε β → A → Prop) : Except ε α → A → Prop
  | .ok x, a => f x a
  | .error e, a => Q (.error e) a

variable {P}

theorem Follows.mono {a : A} {p : Prog C ε α} {Q Q' : Except ε α → A → Prop}
    (h : Follows P a p Q) (hQ : ∀ r a, Q r a → Q' r a) : Follows P a p Q' := by
  induction p generalizing a with
  | done x => exact hQ _ _ h
  | fail e => exact hQ _ _ h
  | call c k ih => exact ⟨h.1, fun b hb => ih b (h.2 b hb)⟩

@[simp] theorem follows_done {a : A} {x : α} {Q : Except ε α → A → Prop} :
    Follows P a (.done x) Q ↔ Q (.ok x) a := Iff.rfl

@[simp] theorem follows_fail {a : A} {e : ε} {Q : Except ε α → A → Prop} :
    Follows P a (.fail e : Prog C ε α) Q ↔ Q (.error e) a := Iff.rfl

@[simp] theorem follows_call {γ : Type} {a : A} {c : C γ} {k : γ → Prog C ε α}
    {Q : Except ε α → A → Prop} :
    Follows P a (.call c k) Q ↔
      P.allows a c ∧ ∀ b, P.answers c b → Follows P (P.next a c b) (k b) Q := Iff.rfl

/-- What every allowed call keeps, a program keeps. -/
theorem Follows.keep {J : A → Prop} {a : A} {p : Prog C ε α} {Q : Except ε α → A → Prop}
    (hJ : ∀ {γ : Type} (a : A) (c : C γ) (b : γ), P.allows a c → J a → J (P.next a c b))
    (h : Follows P a p Q) (ha : J a) : Follows P a p fun r a' => Q r a' ∧ J a' := by
  induction p generalizing a with
  | done x => exact ⟨h, ha⟩
  | fail e => exact ⟨h, ha⟩
  | call c k ih => exact ⟨h.1, fun b hb => ih b (h.2 b hb) (hJ a c b h.1 ha)⟩

theorem follows_bind {a : A} {p : Prog C ε α} {f : α → Prog C ε β} {Q : Except ε β → A → Prop} :
    Follows P a (p >>= f) Q ↔ Follows P a p (onOk (fun x a => Follows P a (f x) Q) Q) := by
  induction p generalizing a with
  | done x => rfl
  | fail e => rfl
  | call c k ih =>
    exact and_congr_right fun _ => forall_congr' fun b => forall_congr' fun _ => ih b

theorem follows_attempt {a : A} {p : Prog C ε α} {Q : Except ε' (Except ε α) → A → Prop} :
    Follows P a (p.attempt : Prog C ε' (Except ε α)) Q ↔
      Follows P a p (fun r a => Q (.ok r) a) := by
  induction p generalizing a with
  | done x => rfl
  | fail e => rfl
  | call c k ih =>
    exact and_congr_right fun _ => forall_congr' fun b => forall_congr' fun _ => ih b

variable (P)

/-- A call that is always allowed and forgets nothing, in the order `le` of memories. -/
def QuietCall (le : A → A → Prop) {γ : Type} (c : C γ) : Prop :=
  ∀ a, P.allows a c ∧ ∀ b, P.answers c b → le a (P.next a c b)

def Quiet (le : A → A → Prop) : Prog C ε α → Prop
  | .done _ => True
  | .fail _ => True
  | .call c k => QuietCall P le c ∧ ∀ b, Quiet le (k b)

variable {P} {le : A → A → Prop}

theorem quiet_bind {p : Prog C ε α} {f : α → Prog C ε β} (hp : Quiet P le p)
    (hf : ∀ x, Quiet P le (f x)) : Quiet P le (p >>= f) := by
  induction p with
  | done x => exact hf x
  | fail e => trivial
  | call c k ih => exact ⟨hp.1, fun b => ih b (hp.2 b)⟩

theorem Quiet.mono {le' : A → A → Prop} (h : ∀ a b, le a b → le' a b) {p : Prog C ε α}
    (hp : Quiet P le p) : Quiet P le' p := by
  induction p with
  | done x => trivial
  | fail e => trivial
  | call c k ih =>
    exact ⟨fun a => ⟨(hp.1 a).1, fun b hb => h _ _ ((hp.1 a).2 b hb)⟩, fun b => ih b (hp.2 b)⟩

theorem quiet_attempt {p : Prog C ε α} (hp : Quiet P le p) :
    Quiet P le (p.attempt : Prog C ε' (Except ε α)) := by
  induction p with
  | done x => trivial
  | fail e => trivial
  | call c k ih => exact ⟨hp.1, fun b => ih b (hp.2 b)⟩

theorem Quiet.follows (hrefl : ∀ a, le a a) (htrans : ∀ a b c, le a b → le b c → le a c)
    {a : A} {p : Prog C ε α} (hp : Quiet P le p) : Follows P a p (fun _ a' => le a a') := by
  induction p generalizing a with
  | done x => exact hrefl a
  | fail e => exact hrefl a
  | call c k ih =>
    refine ⟨(hp.1 a).1, fun b hb => ?_⟩
    exact (ih b (hp.2 b)).mono fun _ a' h => htrans _ _ _ ((hp.1 a).2 b hb) h

end

end Hunter.Effect
