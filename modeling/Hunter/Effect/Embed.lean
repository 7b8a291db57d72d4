import Hunter.Effect.Oracle
set_option autoImplicit false

namespace Hunter.Effect

universe u v

variable {C : Type → Type u} {D : Type → Type v} {ε ε' α β : Type}

/-- The program with each call taken for one of a wider family. -/
def Prog.embed (into : {β : Type} → C β → D β) : Prog C ε α → Prog D ε α
  | .done a => .done a
  | .fail e => .fail e
  | .call c k => .call (into c) fun b => (k b).embed into

section
variable {into : {β : Type} → C β → D β}

theorem embed_bind (p : Prog C ε α) (f : α → Prog C ε β) :
    (p >>= f).embed into = p.embed into >>= fun x => (f x).embed into := by
  induction p with
  | done a => rfl
  | fail e => rfl
  | call c k ih => exact congrArg (Prog.call (into c)) (funext ih)

theorem embed_bind_congr {p q : Prog C ε α} {f g : α → Prog C ε β}
    (hp : p.embed into = q.embed into) (hf : ∀ x, (f x).embed into = (g x).embed into) :
    (p >>= f).embed into = (q >>= g).embed into := by
  rw [embed_bind, embed_bind, hp, funext hf]

theorem embed_attempt (p : Prog C ε α) :
    (p.attempt : Prog C ε' (Except ε α)).embed into = (p.embed into).attempt := by
  induction p with
  | done a => rfl
  | fail e => rfl
  | call c k ih => exact congrArg (Prog.call (into c)) (funext ih)

theorem within_embed {okC : {β : Type} → C β → Prop} {okD : {β : Type} → D β → Prop}
    {Q : α → Prop} {p : Prog C ε α} (h : Within okC Q p)
    (hok : ∀ {γ : Type} (c : C γ), okC c → okD (into c)) : Within okD Q (p.embed into) := by
  induction p with
  | done a => exact h
  | fail e => trivial
  | call c k ih => exact ⟨hok c h.1, fun b => ih b (h.2 b)⟩

end

end Hunter.Effect
