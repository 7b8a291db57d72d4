import Hunter.Protocol
set_option autoImplicit false

namespace Hunter
open Effect

variable {α β : Type} {a : Memory}

theorem mem_next {c : Call β} {b : β} {x : Fact} :
    x ∈ a.next c b ↔ x ∈ a ∧ ¬ c.forgets b x ∨ c.learns a b x := Iff.rfl

theorem follows_sql {c : StoreCall β} {Q : Except Text β → Memory → Prop} :
    Follows protocol a (sql c) Q ↔ c.allowed a ∧
      (∀ b, (Call.store c).answers (.ok b) → Q (.ok b) (a.next (.store c) (.ok b))) ∧
      ∀ e, Q (.error e) (a.next (.store c) (.error e)) := by
  constructor
  · intro h
    exact ⟨h.1, fun b hb => h.2 (.ok b) hb, fun e => h.2 (.error e) trivial⟩
  · intro h
    refine ⟨h.1, fun r hr => ?_⟩
    cases r with
    | ok b => exact h.2.1 b hr
    | error e => exact h.2.2 e

theorem follows_sqlResult {c : StoreCall β} {Q : Except Text (Except Text β) → Memory → Prop} :
    Follows protocol a (sqlResult c) Q ↔ c.allowed a ∧
      (∀ b, (Call.store c).answers (.ok b) → Q (.ok (.ok b)) (a.next (.store c) (.ok b))) ∧
      ∀ e, Q (.ok (.error e)) (a.next (.store c) (.error e)) := by
  constructor
  · intro h
    exact ⟨h.1, fun b hb => h.2 (.ok b) hb, fun e => h.2 (.error e) trivial⟩
  · intro h
    refine ⟨h.1, fun r hr => ?_⟩
    cases r with
    | ok b => exact h.2.1 b hr
    | error e => exact h.2.2 e

theorem follows_sqlResult_iff {c : StoreCall β} {Q : Except Text (Except Text β) → Memory → Prop} :
    Follows protocol a (sqlResult c) Q ↔ Follows protocol a (sql c) fun r a' => Q (.ok r) a' := by
  rw [follows_sqlResult, follows_sql]

theorem follows_logWriteFailure {c : StoreCall β} {Q : Except Text Unit → Memory → Prop} :
    Follows protocol a (logWriteFailure c) Q ↔ c.allowed a ∧
      (∀ b, (Call.store c).answers (.ok b) → Q (.ok ()) (a.next (.store c) (.ok b))) ∧
      ∀ e, Q (.ok ()) (a.next (.store c) (.error e)) := by
  constructor
  · intro h
    exact ⟨h.1, fun b hb => h.2 (.ok b) hb, fun e => h.2 (.error e) trivial⟩
  · intro h
    refine ⟨h.1, fun r hr => ?_⟩
    cases r with
    | ok b => exact h.2.1 b hr
    | error e => exact h.2.2 e

theorem next_ask {q : Query β} {b : β} : a.next (.ask q) b = a := by
  ext x
  simp [mem_next, Call.forgets, Call.learns]

theorem follows_ask {q : Query β} {Q : Except Text β → Memory → Prop} :
    Follows protocol a (ask q) Q ↔ q.allowed a ∧ ∀ b, Q (.ok b) a := by
  constructor
  · intro h
    exact ⟨h.1, fun b => by simpa [protocol, next_ask] using h.2 b trivial⟩
  · intro h
    refine ⟨h.1, fun b _ => ?_⟩
    simpa [protocol, next_ask] using h.2 b

theorem follows_tryAsk {q : Query (Except Text β)} {Q : Except Text β → Memory → Prop} :
    Follows protocol a (tryAsk q) Q ↔
      q.allowed a ∧ (∀ b, Q (.ok b) a) ∧ ∀ e, Q (.error e) a := by
  constructor
  · intro h
    refine ⟨h.1, fun b => ?_, fun e => ?_⟩
    · simpa [protocol, next_ask] using h.2 (.ok b) trivial
    · simpa [protocol, next_ask] using h.2 (.error e) trivial
  · intro h
    refine ⟨h.1, fun r _ => ?_⟩
    cases r with
    | ok b => simpa [protocol, next_ask] using h.2.1 b
    | error e => simpa [protocol, next_ask] using h.2.2 e

theorem follows_tree {c : TreeCall β} {Q : Except Text β → Memory → Prop} :
    Follows protocol a (tree c) Q ↔ c.allowed a ∧ ∀ b, Q (.ok b) (a.next (.tree c) b) := by
  constructor
  · intro h
    exact ⟨h.1, fun b => h.2 b trivial⟩
  · intro h
    exact ⟨h.1, fun b _ => h.2 b⟩

theorem follows_tryTree {c : TreeCall (Except Text β)} {Q : Except Text β → Memory → Prop} :
    Follows protocol a (tryTree c) Q ↔ c.allowed a ∧
      (∀ b, Q (.ok b) (a.next (.tree c) (.ok b))) ∧
      ∀ e, Q (.error e) (a.next (.tree c) (.error e)) := by
  constructor
  · intro h
    exact ⟨h.1, fun b => h.2 (.ok b) trivial, fun e => h.2 (.error e) trivial⟩
  · intro h
    refine ⟨h.1, fun r _ => ?_⟩
    cases r with
    | ok b => exact h.2.1 b
    | error e => exact h.2.2 e

def Calm (a : Memory) : Prop := ∀ f, Fact.merging f ∉ a

/-- Everything known in `a` but facts of kind `drop` is known in `b`, and `b` is as calm. -/
structure Keeps (drop : Fact → Prop) (a b : Memory) : Prop where
  known : ∀ x ∈ a, ¬ drop x → x ∈ b
  calm : Calm a → Calm b

abbrev Grows : Memory → Memory → Prop := Keeps fun _ => False

abbrev Settles : Memory → Memory → Prop := Keeps fun x => x.isOneShot = false

namespace Keeps
variable {b c : Memory} {drop drop' : Fact → Prop}

theorem refl (drop : Fact → Prop) (a : Memory) : Keeps drop a a :=
  ⟨fun _ hx _ => hx, id⟩

theorem trans (hab : Keeps drop a b) (hbc : Keeps drop b c) : Keeps drop a c :=
  ⟨fun x hx hd => hbc.known x (hab.known x hx hd) hd, fun h => hbc.calm (hab.calm h)⟩

theorem weaken (h : Keeps drop a b) (hd : ∀ x, drop x → drop' x) : Keeps drop' a b :=
  ⟨fun x hx hn => h.known x hx fun hx' => hn (hd x hx'), h.calm⟩

theorem grows (h : Grows a b) : Keeps drop a b := h.weaken fun _ => False.elim

theorem settles (h : Keeps drop a b) (hdrop : ∀ f, ¬ drop (.oneShot f)) : Settles a b := by
  refine h.weaken fun x hx => ?_
  cases x with
  | oneShot f => exact absurd hx (hdrop f)
  | _ => rfl

end Keeps

theorem Keeps.mem {b : Memory} {x : Fact} (h : Keeps (fun _ => False) a b) (hx : x ∈ a) : x ∈ b :=
  h.known x hx id

/-- What a call can leave out, where it does not begin to record a merge. -/
theorem keeps_next {c : Call β} {b : β} {drop : Fact → Prop}
    (hdrop : ∀ x, c.forgets b x → drop x) (hcalm : ∀ f, ¬ c.learns a b (.merging f)) :
    Keeps drop a (a.next c b) := by
  constructor
  · intro x hx hn
    exact Or.inl ⟨hx, fun h => hn (hdrop x h)⟩
  · intro h f hf
    rcases hf with hf | hf
    · exact h f hf.1
    · exact hcalm f hf

end Hunter
