import Hunter.Calls
import Hunter.Effect.Runs
set_option autoImplicit false

namespace Hunter
open Effect

/-! A program that runs alone, its statements succeeding. -/

def Call.succeeds : {β : Type} → Call β → β → Prop
  | _, .store _, r => ∃ b, r = .ok b
  | _, _, _ => True

def Lands {β : Type} (c : Call β) (w : World) (b : β) (w' : World) : Prop :=
  CallStep c w b w' ∧ c.succeeds b

theorem lands_store {β : Type} {c : StoreCall β} {w w' : World} {r : Except Text β} :
    Lands (.store c) w r w' ↔
      c.keyed w.store = true ∧
        ∃ b s, r = .ok b ∧ c.apply w.store = some (b, s) ∧ w' = { w with store := s } := by
  constructor
  · rintro ⟨hstep, b, rfl⟩
    refine ⟨hstep.keyed, hstep.leaves.resolve_right ?_⟩
    rintro ⟨⟨e, he⟩, -⟩
    cases he
  · rintro ⟨hkeyed, b, s, rfl, happly, rfl⟩
    exact ⟨.store happly hkeyed, b, rfl⟩

theorem lands_ask {β : Type} {q : Query β} {w w' : World} {b : β} :
    Lands (.ask q) w b w' ↔ w' = w := by
  constructor
  · rintro ⟨hstep, -⟩
    exact hstep.leaves
  · rintro rfl
    exact ⟨.ask q _ b, trivial⟩

/-- `p` ends with `a`, undisturbed. -/
abbrev EndsAlone {α : Type} (p : Act α) (w : World) (a : α) (w' : World) : Prop :=
  Runs Lands p w (.ok a) w'

section
variable {α β : Type} {w w' : World} {a : α}

@[simp] theorem endsAlone_done {x : α} : EndsAlone (.done x) w a w' ↔ a = x ∧ w' = w := by
  constructor
  · intro h
    cases h
    exact ⟨rfl, rfl⟩
  · rintro ⟨rfl, rfl⟩
    exact .done

@[simp] theorem endsAlone_fail {e : Text} : ¬ EndsAlone (.fail e : Act α) w a w' := nofun

@[simp] theorem endsAlone_store {c : StoreCall β} {k : Except Text β → Act α} :
    EndsAlone (.call (.store c) k) w a w' ↔
      c.keyed w.store = true ∧ ∃ b s, c.apply w.store = some (b, s) ∧
        EndsAlone (k (.ok b)) { w with store := s } a w' := by
  constructor
  · intro h
    cases h with
    | call hstep hrest =>
      obtain ⟨hkeyed, b, s, rfl, happly, rfl⟩ := lands_store.1 hstep
      exact ⟨hkeyed, b, s, happly, hrest⟩
  · rintro ⟨hkeyed, b, s, happly, hrest⟩
    exact .call (lands_store.2 ⟨hkeyed, b, s, rfl, happly, rfl⟩) hrest

@[simp] theorem endsAlone_ask {q : Query β} {k : β → Act α} :
    EndsAlone (.call (.ask q) k) w a w' ↔ ∃ b, EndsAlone (k b) w a w' := by
  constructor
  · intro h
    cases h with
    | call hstep hrest =>
      obtain rfl := lands_ask.1 hstep
      exact ⟨_, hrest⟩
  · rintro ⟨b, hrest⟩
    exact .call (lands_ask.2 rfl) hrest

theorem endsAlone_bind {p : Act β} {f : β → Act α} :
    EndsAlone (p >>= f) w a w' ↔ ∃ b v, EndsAlone p w b v ∧ EndsAlone (f b) v a w' := by
  constructor
  · exact Runs.of_bind_ok
  · rintro ⟨b, v, hp, hf⟩
    exact hp.bind hf

end

def alone : Machine.Reply Call World where
  answer
    | .store c, w =>
      if c.keyed w.store then
        (c.apply w.store).map fun r => (.ok r.1, { w with store := r.2 })
      else none
    | .ask .now, w => some (0, w)
    | _, _ => none

theorem alone_lands {β : Type} (c : Call β) (w : World) (b : β) (w' : World)
    (h : alone.answer c w = some (b, w')) : Lands c w b w' := by
  cases c with
  | store c =>
    obtain ⟨hkeyed, hanswer⟩ := Option.ite_none_right_eq_some.1 h
    obtain ⟨r, hr, heq⟩ := Option.map_eq_some_iff.1 hanswer
    cases heq
    exact lands_store.2 ⟨hkeyed, r.1, r.2, rfl, hr, rfl⟩
  | ask q =>
    cases q with
    | now =>
      cases h
      exact lands_ask.2 rfl
    | _ => cases h
  | tree c => cases h

theorem endsAlone_replay {α : Type} {p : Act α} {w : World} {a : α}
    (h : (Machine.replay alone p w).1 = .done a) :
    EndsAlone p w a (Machine.replay alone p w).2 :=
  runs_replay alone_lands h

end Hunter
