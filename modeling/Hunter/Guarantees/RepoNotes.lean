import Hunter.Server.Notes
set_option autoImplicit false

namespace Hunter.Notes
open Effect
open Function (update)

/-! The notes of repos that are deleted, and of those that are not. -/

def Grounds.Gone (s : Grounds) (id : Int) : Prop := id < s.nextId ∧ s.getRepoById id = none

inductive Fact
  | holds
  | gone (id : Int)
  | swept (id : Int)
  | cleared (id : Int)
  | seen (id : Int)
  deriving DecidableEq

def Fact.Holds (i : Nat) (s : Grounds) : Fact → Prop
  | .holds => s.holder = some i
  | .gone id => s.Gone id
  | .swept id => s.legacy id = none
  | .cleared id => s.holder = some i ∧ s.Gone id ∧ s.notes id = none
  | .seen id => s.holder = some i ∧ (s.repos id).isSome ∧ .forgetDeletedRepo id ∉ s.inFlight

def Fact.lasts : Fact → Bool
  | .gone _ | .swept _ => true
  | _ => false

def Op.told : Op → List Fact
  | .softDelete id => [.gone id]
  | .removeClone id => [.swept id]
  | .removeNotes id => [.cleared id]
  | .forgetDeletedRepo _ => []

def Op.allowed (a : List Fact) : Op → Prop
  | .softDelete id => .seen id ∈ a
  | .removeClone id => .gone id ∈ a
  | .removeNotes id => .holds ∈ a ∧ .gone id ∈ a
  | .forgetDeletedRepo id => .swept id ∈ a ∧ .cleared id ∈ a

namespace NotesCall

def allowed (a : List Fact) : {β : Type} → NotesCall β → Prop
  | _, .unlock => .holds ∈ a
  | _, .op o => o.allowed a
  | _, .appendRepoNote id _ _ _ => .seen id ∈ a
  | _, _ => True

def learns (a : List Fact) : {β : Type} → NotesCall β → β → List Fact
  | _, .lock, _ => .holds :: a
  | _, .unlock, _ => a.filter Fact.lasts
  | _, .getRepoById id, .ok (some _) => if .holds ∈ a then .seen id :: a else a
  | _, .repoIsDeleted id, .ok true => .gone id :: a
  | _, .deletedRepoIds, .ok ids => ids.map Fact.gone ++ a
  | _, .op (.forgetDeletedRepo id), _ => a.filter (· ≠ .seen id)
  | _, .op o, .ok () => o.told ++ a
  | _, .appendRepoNote id _ _ _, _ => a.filter (· ≠ .cleared id)
  | _, _, _ => a

end NotesCall

def protocol : Protocol NotesCall (List Fact) where
  allows a c := c.allowed a
  answers _ _ := True
  next a c b := c.learns a b

section
variable {α : Type} {a a' : List Fact}

theorem follows_try {c : NotesCall (Except NotesError α)}
    {Q : Except NotesError α → List Fact → Prop} :
    Follows protocol a (Prog.try_ c) Q ↔ c.allowed a ∧ (∀ x, Q (.ok x) (c.learns a (.ok x))) ∧
      ∀ e, Q (.error e) (c.learns a (.error e)) := by
  refine and_congr_right fun _ => ⟨fun h => ⟨fun x => h (.ok x) trivial, fun e =>
    h (.error e) trivial⟩, fun h b _ => ?_⟩
  cases b with
  | ok x => exact h.1 x
  | error e => exact h.2 e

theorem follows_ask {c : NotesCall α} {Q : Except NotesError α → List Fact → Prop} :
    Follows protocol a (Prog.ask c) Q ↔ c.allowed a ∧ ∀ b, Q (.ok b) (c.learns a b) :=
  and_congr_right fun _ => forall_congr' fun _ => ⟨fun h => h trivial, fun h _ => h⟩

theorem learns_seen {id : Int} {repo : RepoRow} (h : Fact.holds ∈ a) :
    NotesCall.learns a (.getRepoById id) (.ok (some repo)) = .seen id :: a := if_pos h

theorem follows_guarded {body : NotesAct α} {Q : Except NotesError α → List Fact → Prop}
    (h : Follows protocol (.holds :: a) body fun r a' => .holds ∈ a' ∧ Q r (a'.filter Fact.lasts)) :
    Follows protocol a (guarded body) Q := by
  refine follows_bind.2 (follows_ask.2 ⟨trivial, fun _ => ?_⟩)
  refine follows_bind.2 (follows_attempt.2 (h.mono fun r a' hr => ?_))
  refine follows_bind.2 (follows_ask.2 ⟨hr.1, fun _ => ?_⟩)
  cases r <;> exact hr.2

def Lasting (a a' : List Fact) : Prop := ∀ x ∈ a, x.lasts = true → x ∈ a'

theorem lasting_filter (h : Lasting a a') : Lasting a (a'.filter Fact.lasts) := fun x hx hlasts =>
  List.mem_filter.2 ⟨h x hx hlasts, hlasts⟩

theorem follows_reapRepo {id : Int} (h : .gone id ∈ a) :
    Follows protocol a (reapRepo id) fun _ a' => Lasting a a' := by
  have hlasting : ∀ (pre : List Fact), Lasting a ((pre ++ (.holds :: a)).filter Fact.lasts) :=
    fun pre => lasting_filter fun x hx _ => List.mem_append_right _ (.tail _ hx)
  have hgone : ∀ (pre : List Fact), .gone id ∈ pre ++ (.holds :: a) := fun pre =>
    List.mem_append_right _ (.tail _ h)
  have hholds : ∀ (pre : List Fact), .holds ∈ pre ++ (.holds :: a) := fun pre =>
    List.mem_append_right _ (.head _)
  refine follows_guarded (follows_bind.2 (follows_try.2 ⟨hgone [], fun _ => ?_, fun _ =>
    ⟨hholds [], hlasting []⟩⟩))
  refine follows_bind.2 (follows_try.2 ⟨⟨hholds [.swept id], hgone [.swept id]⟩, fun _ => ?_,
    fun _ => ⟨hholds [.swept id], hlasting [.swept id]⟩⟩)
  have hend : ∀ pre : List Fact,
      Fact.holds ∈ (pre ++ Fact.holds :: a).filter (· ≠ Fact.seen id) ∧
        Lasting a (((pre ++ Fact.holds :: a).filter (· ≠ Fact.seen id)).filter Fact.lasts) := by
    refine fun pre => ⟨List.mem_filter.2 ⟨hholds pre, rfl⟩, lasting_filter fun x hx hlasts =>
      List.mem_filter.2 ⟨List.mem_append_right _ (.tail _ hx), ?_⟩⟩
    cases x <;> first | rfl | cases hlasts
  exact follows_try.2 ⟨⟨.tail _ (.head _), .head _⟩, fun _ => hend [.cleared id, .swept id],
    fun _ => hend [.cleared id, .swept id]⟩

theorem follows_reapEach {ids : List Int} (h : ∀ id ∈ ids, .gone id ∈ a) :
    Follows protocol a (reapEach ids) fun _ _ => True := by
  induction ids generalizing a with
  | nil => trivial
  | cons id rest ih =>
    refine follows_bind.2 (follows_attempt.2 ((follows_reapRepo (h id (.head _))).mono
      fun r a' hlasting => ?_))
    have hrest : ∀ id ∈ rest, .gone id ∈ a' := fun id hid =>
      hlasting _ (h id (.tail _ hid)) rfl
    exact follows_bind.2 ((ih hrest).mono fun r a' _ => by cases r <;> trivial)

theorem follows_flagRepo {id : Int} (hholds : .holds ∈ a) :
    Follows protocol a (flagRepo id) fun r a' => .holds ∈ a' ∧ (r = .ok () → .gone id ∈ a') := by
  refine follows_bind.2 (follows_try.2 ⟨trivial, fun found => ?_, fun _ => ⟨hholds, nofun⟩⟩)
  cases found with
  | none =>
    refine follows_bind.2 (follows_try.2 ⟨trivial, fun deleted => ?_, fun _ => ⟨hholds, nofun⟩⟩)
    cases deleted with
    | false => exact ⟨hholds, nofun⟩
    | true => exact ⟨.tail _ hholds, fun _ => .head _⟩
  | some repo =>
    dsimp only [onOk]
    rw [learns_seen hholds]
    refine follows_bind.2 (follows_try.2 ⟨?_, fun _ => follows_try.2 ⟨trivial, fun _ => ?_,
      fun _ => ?_⟩, fun _ => ?_⟩)
    · exact .head _
    · exact ⟨.tail _ (.tail _ hholds), fun _ => .head _⟩
    · exact ⟨.tail _ (.tail _ hholds), nofun⟩
    · exact ⟨.tail _ hholds, nofun⟩

theorem follows_deleteRepo {id : Int} :
    Follows protocol a (deleteRepo id) fun _ _ => True := by
  refine follows_bind.2 (follows_guarded ((follows_flagRepo (.head _)).mono fun r a' h => ?_))
  refine ⟨h.1, ?_⟩
  cases r with
  | error e => trivial
  | ok _ =>
    have hgone : .gone id ∈ a'.filter Fact.lasts := List.mem_filter.2 ⟨h.2 rfl, rfl⟩
    exact follows_bind.2 (follows_attempt.2 ((follows_reapRepo hgone).mono fun _ _ _ => trivial))

theorem follows_addRepoNote {body : NoteBody} :
    Follows protocol a (addRepoNote body) fun _ _ => True := by
  refine follows_bind.2 ?_
  cases body.checked with
  | error e => trivial
  | ok checked =>
  obtain ⟨id, note, category⟩ := checked
  refine follows_guarded (follows_bind.2 (follows_bind.2 (follows_try.2 ⟨trivial, fun found => ?_,
    fun _ => ⟨.head _, trivial⟩⟩)))
  cases found with
  | none => exact ⟨.head _, trivial⟩
  | some repo =>
    dsimp only [onOk]
    rw [learns_seen (.head _)]
    have hholds : Fact.holds ∈ (Fact.seen id :: .holds :: a).filter (· ≠ .cleared id) :=
      List.mem_filter.2 ⟨.tail _ (.head _), rfl⟩
    refine follows_bind.2 (follows_try.2 ⟨.head _, fun notes => ?_, fun _ => ⟨hholds, trivial⟩⟩)
    exact follows_bind.2 (follows_try.2 ⟨trivial, fun _ => ⟨hholds, trivial⟩, fun _ =>
      ⟨hholds, trivial⟩⟩)

theorem follows_repoNotes {id : Int} : Follows protocol a (repoNotes id) fun _ _ => True := by
  refine follows_bind.2 (follows_bind.2 (follows_try.2 ⟨trivial, fun found => ?_,
    fun _ => trivial⟩))
  cases found with
  | none => trivial
  | some repo => exact follows_bind.2 (follows_ask.2 ⟨trivial, fun _ => trivial⟩)

theorem follows_answered {handler : NotesAct Response}
    (h : Follows protocol a handler fun _ _ => True) :
    Follows protocol a (answered handler) fun r _ => ∀ t, r ≠ .ok (some t) :=
  follows_bind.2 (follows_attempt.2 (h.mono fun _ _ _ =>
    follows_bind.2 (follows_ask.2 ⟨trivial, fun _ => nofun⟩)))

theorem follows_body (task : Task) :
    Follows protocol [] task.body fun r _ => ∀ t, r ≠ .ok (some t) := by
  cases task with
  | deleteRepo => exact follows_answered follows_deleteRepo
  | addRepoNote => exact follows_answered follows_addRepoNote
  | repoNotes => exact follows_answered follows_repoNotes
  | reapDeletedRepos =>
    refine follows_bind.2 (follows_bind.2 (follows_ask.2 ⟨trivial, fun ids => ?_⟩))
    refine (follows_reapEach fun id hid => ?_).mono fun r _ _ => by cases r <;> exact nofun
    cases ids with
    | error e => cases hid
    | ok ids => exact List.mem_append_left _ (List.mem_map_of_mem hid)

end

def follower : yard.Follower protocol where
  entry _ := []
  ready _ _ := False
  mayEnd _ := True
  answers _ _ _ _ _ _ := trivial
  follows task := (follows_body task).mono fun _ _ hends =>
    Pool.ending_of (fun t ht => hends t ht) trivial

/-- All an operation can do, at its end or on the way to a failure. -/
structure Op.Ends (o : Op) (s s' : Grounds) : Prop where
  next : s'.nextId = s.nextId
  holder : s'.holder = s.holder
  inFlight : s'.inFlight = s.inFlight
  dead : ∀ id, s.getRepoById id = none → s'.getRepoById id = none
  row : ∀ id, (s'.repos id).isSome → (s.repos id).isSome
  kept : ∀ id, (s.repos id).isSome → (s'.repos id).isSome ∨ o = .forgetDeletedRepo id
  notes : ∀ id, s'.notes id = s.notes id ∨ o = .removeNotes id ∧ s'.notes id = none
  legacy : ∀ id, (s'.legacy id).isSome → (s.legacy id).isSome

section
variable {o : Op} {s s' : Grounds} {id : Int} {row : RepoRow}

theorem Op.Ends.refl : o.Ends s s :=
  ⟨rfl, rfl, rfl, fun _ h => h, fun _ h => h, fun _ h => Or.inl h, fun _ => Or.inl rfl,
    fun _ h => h⟩

theorem getRepoById_eq_some :
    s.getRepoById id = some row ↔ s.repos id = some row ∧ row.deletedAt = none := by
  simp [Grounds.getRepoById, Option.filter_eq_some_iff]

theorem getRepoById_eq_none :
    s.getRepoById id = none ↔ ∀ row, s.repos id = some row → row.deletedAt ≠ none := by
  rw [Option.eq_none_iff_forall_ne_some]
  simp only [ne_eq, getRepoById_eq_some, not_and]

theorem setRepo_repos (k : Int) (r : Option RepoRow) :
    (s.setRepo id r).repos k = if k = id then r else s.repos k :=
  Function.update_apply s.repos id r k

theorem ends_setRepo {r : Option RepoRow} (hrow : (s.repos id).isSome)
    (hdead : ∀ row, r = some row → row.deletedAt ≠ none)
    (hkept : r.isSome ∨ o = .forgetDeletedRepo id) : o.Ends s (s.setRepo id r) where
  next := rfl
  holder := rfl
  inFlight := rfl
  dead k h := by
    rw [getRepoById_eq_none] at h ⊢
    intro row hk
    rw [setRepo_repos] at hk
    split at hk
    · exact hdead row hk
    · exact h row hk
  row k h := by
    rw [setRepo_repos] at h
    split at h
    · subst k
      exact hrow
    · exact h
  kept k h := by
    rw [setRepo_repos]
    split
    · subst k
      exact hkept
    · exact Or.inl h
  notes _ := Or.inl rfl
  legacy _ h := h

theorem ends_removeClone :
    (Op.removeClone id).Ends s { s with legacy := update s.legacy id none } :=
  { Op.Ends.refl with
    legacy := fun k h => by
      dsimp only at h
      rw [Function.update_apply] at h
      split at h
      · cases h
      · exact h }

theorem Op.Done.ends (h : o.Done s s') : o.Ends s s' := by
  cases o with
  | softDelete id =>
    obtain ⟨-, h⟩ := h
    cases hrow : s.getRepoById id with
    | none =>
      simp only [hrow] at h
      subst h
      exact .refl
    | some row =>
      simp only [hrow] at h
      obtain ⟨-, rfl⟩ := h
      refine ends_setRepo (by rw [(getRepoById_eq_some.1 hrow).1]; rfl) ?_ (Or.inl rfl)
      rintro row' ⟨⟩
      exact nofun
  | removeClone id =>
    obtain rfl : s' = _ := h
    exact ends_removeClone
  | removeNotes id =>
    obtain rfl : s' = _ := h
    refine { Op.Ends.refl with notes := fun k => ?_ }
    dsimp only
    rw [Function.update_apply]
    split
    · subst k
      exact Or.inr ⟨rfl, rfl⟩
    · exact Or.inl rfl
  | forgetDeletedRepo id =>
    dsimp only [Op.Done] at h
    cases hrow : (s.repos id).filter fun row => row.deletedAt.isSome with
    | none =>
      simp only [hrow] at h
      subst h
      exact .refl
    | some row =>
      simp only [hrow] at h
      obtain ⟨-, -, rfl⟩ := h
      refine ends_setRepo ?_ nofun (Or.inr rfl)
      rw [(Option.filter_eq_some_iff.1 hrow).1]
      rfl

theorem Op.Failed.ends (h : o.Failed s s') : o.Ends s s' := by
  cases o with
  | removeClone id =>
    rcases h with rfl | rfl
    · exact .refl
    · exact ends_removeClone
  | _ =>
    obtain rfl : s' = s := h
    exact .refl

def Op.Safe (s : Grounds) : Op → Prop
  | .softDelete _ => True
  | .removeClone id | .removeNotes id => s.Gone id
  | .forgetDeletedRepo id => s.Gone id ∧ s.notes id = none ∧ s.legacy id = none

structure Sound (s : Grounds) : Prop extends s.Owned where
  inFlight : ∀ o ∈ s.inFlight, o.Safe s

theorem Op.Ends.gone (h : o.Ends s s') (hgone : s.Gone id) : s'.Gone id :=
  ⟨h.next ▸ hgone.1, h.dead id hgone.2⟩

theorem Op.Ends.absent {k : Int} (h : o.Ends s s') (hnone : s.notes k = none) :
    s'.notes k = none := by
  rcases h.notes k with hsame | ⟨-, hnone'⟩
  · rw [hsame, hnone]
  · exact hnone'

theorem Op.Ends.swept {k : Int} (h : o.Ends s s') (hnone : s.legacy k = none) :
    s'.legacy k = none := by
  by_contra hsome
  have hwas := h.legacy k (Option.isSome_iff_ne_none.2 hsome)
  rw [hnone] at hwas
  cases hwas

theorem Op.Ends.safe {o' : Op} (h : o.Ends s s') (hsafe : o'.Safe s) : o'.Safe s' := by
  cases o' with
  | softDelete => trivial
  | removeClone | removeNotes => exact h.gone hsafe
  | forgetDeletedRepo => exact ⟨h.gone hsafe.1, h.absent hsafe.2.1, h.swept hsafe.2.2⟩

theorem Op.Ends.owned (h : o.Ends s s') (hsafe : o.Safe s) (howned : s.Owned) : s'.Owned where
  below k row hrow := by
    have hsome : (s.repos k).isSome := h.row k (by rw [hrow]; rfl)
    obtain ⟨row, hrow⟩ := Option.isSome_iff_exists.1 hsome
    rw [h.next]
    exact howned.below k row hrow
  notes k hk := by
    rcases h.notes k with hsame | ⟨-, hnone⟩
    · rw [hsame] at hk
      refine (h.kept k (howned.notes k hk)).resolve_right fun ho => ?_
      subst ho
      rw [hsafe.2.1] at hk
      cases hk
    · rw [hnone] at hk
      cases hk
  legacy k hk := by
    have hwas := h.legacy k hk
    refine (h.kept k (howned.legacy k hwas)).resolve_right fun ho => ?_
    subst ho
    rw [hsafe.2.2] at hwas
    cases hwas

theorem Op.Ends.sound (h : o.Ends s s') (hsafe : o.Safe s) (hsound : Sound s) : Sound s' where
  toOwned := h.owned hsafe hsound.toOwned
  inFlight o' ho' := h.safe (hsound.inFlight o' (h.inFlight ▸ ho'))

end

section
variable {o : Op} {s s' : Grounds} {id : Int} {x : Fact} {i j : Nat} {a : List Fact}

theorem Fact.Holds.holder (hx : x.Holds i s) (hlasts : x.lasts = false) : s.holder = some i := by
  cases x with
  | gone | swept => cases hlasts
  | holds => exact hx
  | cleared | seen => exact hx.1

/-- What an operation of another thread, or one under way on its own, does not touch. -/
theorem Fact.Holds.ends (hx : x.Holds j s) (h : o.Ends s s')
    (hforget : ∀ id, x = .seen id → o ≠ .forgetDeletedRepo id) : x.Holds j s' := by
  cases x with
  | holds => exact h.holder.trans hx
  | gone => exact h.gone hx
  | swept => exact h.swept hx
  | cleared => exact ⟨h.holder.trans hx.1, h.gone hx.2.1, h.absent hx.2.2⟩
  | seen id =>
    exact ⟨h.holder.trans hx.1, (h.kept id hx.2.1).resolve_right (hforget id rfl),
      h.inFlight ▸ hx.2.2⟩

theorem told_holds (howned : s.Owned) (hallow : o.allowed a) (ha : ∀ x ∈ a, x.Holds i s)
    (h : o.Done s s') : ∀ x ∈ o.told, x.Holds i s' := by
  have hends := h.ends
  cases o with
  | softDelete id =>
    rintro x (_ | ⟨_, ⟨⟩⟩)
    obtain ⟨row, hrow⟩ := Option.isSome_iff_exists.1 (ha _ hallow).2.1
    refine ⟨hends.next ▸ howned.below id row hrow, ?_⟩
    obtain ⟨-, h⟩ := h
    cases hlive : s.getRepoById id with
    | none => exact hends.dead id hlive
    | some live =>
      simp only [hlive] at h
      obtain ⟨-, rfl⟩ := h
      rw [getRepoById_eq_none]
      intro row hrow
      rw [setRepo_repos, if_pos rfl] at hrow
      cases hrow
      exact nofun
  | removeClone id =>
    rintro x (_ | ⟨_, ⟨⟩⟩)
    obtain rfl : s' = _ := h
    exact Function.update_self id none s.legacy
  | removeNotes id =>
    rintro x (_ | ⟨_, ⟨⟩⟩)
    refine ⟨hends.holder.trans (ha _ hallow.1), hends.gone (ha _ hallow.2), ?_⟩
    obtain rfl : s' = _ := h
    exact Function.update_self id none s.notes
  | forgetDeletedRepo => rintro x ⟨⟩

theorem safe_of_allowed (hallow : o.allowed a) (ha : ∀ x ∈ a, x.Holds i s) : o.Safe s := by
  cases o with
  | softDelete => trivial
  | removeClone => exact ha _ hallow
  | removeNotes => exact ha _ hallow.2
  | forgetDeletedRepo => exact ⟨(ha _ hallow.2).2.1, (ha _ hallow.2).2.2, ha _ hallow.1⟩

theorem append_notes {bytes : ByteArray} (k : Int) : (s.append id bytes).notes k =
    if k = id then some ((s.notes id).getD .empty ++ bytes) else s.notes k :=
  Function.update_apply s.notes id _ k

theorem sound_append {bytes : ByteArray} (hrow : (s.repos id).isSome)
    (hforget : .forgetDeletedRepo id ∉ s.inFlight) (h : Sound s) : Sound (s.append id bytes) where
  below := h.below
  notes k hk := by
    rw [append_notes] at hk
    split at hk
    · subst k
      exact hrow
    · exact h.notes k hk
  legacy := h.legacy
  inFlight o ho := by
    have hsafe := h.inFlight o ho
    cases o with
    | softDelete => trivial
    | removeClone | removeNotes => exact hsafe
    | forgetDeletedRepo k =>
      refine ⟨hsafe.1, ?_, hsafe.2.2⟩
      rw [append_notes, if_neg]
      · exact hsafe.2.1
      · rintro rfl
        exact hforget ho

theorem Fact.Holds.append {bytes : ByteArray} (hx : x.Holds j s)
    (hcleared : x ≠ .cleared id) : x.Holds j (s.append id bytes) := by
  cases x with
  | cleared k =>
    refine ⟨hx.1, hx.2.1, ?_⟩
    rw [append_notes, if_neg]
    · exact hx.2.2
    · rintro rfl
      exact hcleared rfl
  | _ => exact hx

theorem append_step {repoName note : Text} {category : Option Text}
    {b : Except NotesError Text}
    (h : (NotesCall.appendRepoNote id repoName note category).Step i s s' b) :
    s' = s ∨ ∃ bytes, s' = s.append id bytes := by
  cases b with
  | ok notes =>
    obtain ⟨entry, -, hs, -⟩ := h
    exact Or.inr ⟨_, hs⟩
  | error e =>
    rcases h with h | ⟨-, written, -, -, -, hs⟩
    · exact Or.inl h
    · exact Or.inr ⟨_, hs⟩

theorem op_step {b : Except NotesError Unit} (h : (NotesCall.op o).Step i s s' b) :
    o.Ends s s' ∧ (b = .ok () → o.Done s s') := by
  cases b with
  | ok => exact ⟨Op.Done.ends h, fun _ => h⟩
  | error e => exact ⟨h.1.ends, nofun⟩

theorem gone_of_deleted (howned : s.Owned) (h : s.repoIsDeleted id = true) : s.Gone id := by
  obtain ⟨row, hrow, hdeleted⟩ := (Option.any_eq_true _ _).1 h
  refine ⟨howned.below id row hrow, getRepoById_eq_none.2 fun row' hrow' => ?_⟩
  cases hrow.symm.trans hrow'
  exact Option.isSome_iff_ne_none.1 hdeleted

theorem safe_congr (hrepos : s'.repos = s.repos) (hnext : s'.nextId = s.nextId)
    (hnotes : s'.notes = s.notes) (hlegacy : s'.legacy = s.legacy) (h : o.Safe s) : o.Safe s' := by
  have hgone : ∀ {id}, s.Gone id → s'.Gone id := fun hgone => by
    rwa [Grounds.Gone, Grounds.getRepoById, hrepos, hnext]
  cases o with
  | softDelete => trivial
  | removeClone | removeNotes => exact hgone h
  | forgetDeletedRepo => exact ⟨hgone h.1, hnotes ▸ h.2.1, hlegacy ▸ h.2.2⟩

theorem Sound.congr (h : Sound s) (hrepos : s'.repos = s.repos) (hnext : s'.nextId = s.nextId)
    (hnotes : s'.notes = s.notes) (hlegacy : s'.legacy = s.legacy)
    (hflight : ∀ o ∈ s'.inFlight, o.Safe s) : Sound s' where
  below := by
    rw [hrepos, hnext]
    exact h.below
  notes := by
    rw [hrepos, hnotes]
    exact h.notes
  legacy := by
    rw [hrepos, hlegacy]
    exact h.legacy
  inFlight o ho := safe_congr hrepos hnext hnotes hlegacy (hflight o ho)

theorem seen_holds {found : Option RepoRow} (hsound : Sound s) (ha : ∀ x ∈ a, x.Holds i s)
    (hfound : found = s.getRepoById id) :
    ∀ x ∈ NotesCall.learns a (.getRepoById id) (.ok found), x.Holds i s := by
  cases found with
  | none => exact ha
  | some row =>
    by_cases hholds : Fact.holds ∈ a
    · rw [learns_seen hholds]
      rintro x (_ | ⟨_, hx⟩)
      · refine ⟨ha _ hholds, by rw [(getRepoById_eq_some.1 hfound.symm).1]; rfl, fun hforget => ?_⟩
        cases hfound.trans (hsound.inFlight _ hforget).1.2
      · exact ha x hx
    · rwa [show NotesCall.learns a (.getRepoById id) (.ok (some row)) = a from if_neg hholds]

variable {β : Type} {c : NotesCall β} {b : β}

theorem sound_call (hallow : c.allowed a) (hsound : Sound s) (ha : ∀ x ∈ a, x.Holds i s)
    (h : c.Step i s s' b) : Sound s' ∧ ∀ x ∈ c.learns a b, x.Holds i s' := by
  cases c with
  | lock =>
    obtain ⟨hfree, rfl⟩ := h
    refine ⟨hsound.congr rfl rfl rfl rfl hsound.inFlight, ?_⟩
    rintro x (_ | ⟨_, hx⟩)
    · rfl
    · have hholds := ha x hx
      cases hlasts : x.lasts with
      | false => cases hfree.symm.trans (hholds.holder hlasts)
      | true =>
        cases x with
        | gone | swept => exact hholds
        | _ => cases hlasts
  | unlock =>
    obtain rfl : s' = _ := h
    refine ⟨hsound.congr rfl rfl rfl rfl hsound.inFlight, fun x hx => ?_⟩
    obtain ⟨hx, hlasts⟩ := List.mem_filter.1 hx
    have hholds := ha x hx
    cases x with
    | gone | swept => exact hholds
    | _ => cases hlasts
  | getRepoById id =>
    obtain ⟨rfl, hfound⟩ := h
    refine ⟨hsound, ?_⟩
    cases b with
    | error e => exact ha
    | ok found => exact seen_holds hsound ha (hfound found rfl)
  | repoIsDeleted id =>
    obtain ⟨rfl, hfound⟩ := h
    refine ⟨hsound, ?_⟩
    rcases b with e | _ | _
    · exact ha
    · exact ha
    · rintro x (_ | ⟨_, hx⟩)
      · exact gone_of_deleted hsound.toOwned (hfound true rfl).symm
      · exact ha x hx
  | deletedRepoIds =>
    obtain ⟨rfl, hids⟩ := h
    refine ⟨hsound, ?_⟩
    cases b with
    | error e => exact ha
    | ok ids =>
      intro x hx
      rcases List.mem_append.1 hx with hx | hx
      · obtain ⟨id, hid, rfl⟩ := List.mem_map.1 hx
        exact gone_of_deleted hsound.toOwned (((hids ids rfl).2.1 id).1 hid)
      · exact ha x hx
  | op o =>
    obtain ⟨hends, hdone⟩ := op_step h
    have htold := fun h => told_holds hsound.toOwned (o := o) hallow ha (hdone h)
    refine ⟨hends.sound (safe_of_allowed hallow ha) hsound, ?_⟩
    cases o with
    | forgetDeletedRepo id =>
      intro x hx
      obtain ⟨hx, hne⟩ := List.mem_filter.1 hx
      refine (ha x hx).ends hends fun k hk ho => of_decide_eq_true hne ?_
      cases ho
      exact hk
    | _ =>
      have hkept : ∀ x ∈ a, x.Holds i s' := fun x hx => (ha x hx).ends hends fun _ _ => nofun
      cases b with
      | error e => exact hkept
      | ok =>
        intro x hx
        rcases List.mem_append.1 hx with hx | hx
        · exact htold rfl x hx
        · exact hkept x hx
  | appendRepoNote id =>
    obtain ⟨-, hrow, hforget⟩ := ha _ hallow
    rcases append_step h with rfl | ⟨bytes, rfl⟩
    · exact ⟨hsound, fun x hx => ha x (List.mem_filter.1 hx).1⟩
    · refine ⟨sound_append hrow hforget hsound, fun x hx => ?_⟩
      obtain ⟨hx, hne⟩ := List.mem_filter.1 hx
      exact (ha x hx).append (of_decide_eq_true hne)
  | repoNotes =>
    obtain ⟨rfl, -⟩ := h
    exact ⟨hsound, ha⟩
  | logUserEvent | respond =>
    obtain rfl : s' = s := h
    exact ⟨hsound, ha⟩

theorem Fact.Holds.alone {y : Fact} (hx : x.Holds i s) (hy : y.Holds j s) (hij : i ≠ j)
    (hxlock : x.lasts = false) (hylock : y.lasts = false) : False :=
  hij (Option.some.inj ((hx.holder hxlock).symm.trans (hy.holder hylock)))

theorem holds_frame (hij : i ≠ j) (hallow : c.allowed a) (ha : ∀ x ∈ a, x.Holds i s)
    (hx : x.Holds j s) (h : c.Step i s s' b) : x.Holds j s' := by
  cases c with
  | lock =>
    obtain ⟨hfree, rfl⟩ := h
    cases x with
    | gone | swept => exact hx
    | holds => cases hfree.symm.trans hx
    | cleared | seen => cases hfree.symm.trans hx.1
  | unlock =>
    obtain rfl : s' = _ := h
    cases x with
    | gone | swept => exact hx
    | _ => exact ((ha _ hallow).alone hx hij rfl rfl).elim
  | op o =>
    refine hx.ends (op_step h).1 ?_
    rintro id rfl rfl
    exact (ha _ hallow.2).alone hx hij rfl rfl
  | appendRepoNote id =>
    rcases append_step h with rfl | ⟨bytes, rfl⟩
    · exact hx
    · refine hx.append ?_
      rintro rfl
      exact (ha _ hallow).alone hx hij rfl rfl
  | getRepoById | repoIsDeleted | deletedRepoIds | repoNotes =>
    obtain ⟨rfl, -⟩ := h
    exact hx
  | logUserEvent | respond =>
    obtain rfl : s' = s := h
    exact hx

end

/-- Rows are added and written over, and none comes back to life. -/
structure Grown (s s' : Grounds) : Prop where
  next : s.nextId ≤ s'.nextId
  dead : ∀ id, s.Gone id → s'.getRepoById id = none
  kept : ∀ id, (s.repos id).isSome → (s'.repos id).isSome
  below : ∀ id row, s'.repos id = some row → id < s'.nextId
  notes : s'.notes = s.notes
  legacy : s'.legacy = s.legacy
  holder : s'.holder = s.holder
  inFlight : s'.inFlight = s.inFlight

section
variable {s s' : Grounds} {id : Int} {x : Fact} {j : Nat}

theorem Grown.gone (h : Grown s s') (hgone : s.Gone id) : s'.Gone id :=
  ⟨hgone.1.trans_le h.next, h.dead id hgone⟩

theorem Grown.sound (h : Grown s s') (hsound : Sound s) : Sound s' where
  below := h.below
  notes id hid := h.kept id (hsound.notes id (h.notes ▸ hid))
  legacy id hid := h.kept id (hsound.legacy id (h.legacy ▸ hid))
  inFlight o ho := by
    have hsafe := hsound.inFlight o (h.inFlight ▸ ho)
    cases o with
    | softDelete => trivial
    | removeClone | removeNotes => exact h.gone hsafe
    | forgetDeletedRepo => exact ⟨h.gone hsafe.1, h.notes ▸ hsafe.2.1, h.legacy ▸ hsafe.2.2⟩

theorem Fact.Holds.grown (hx : x.Holds j s) (h : Grown s s') : x.Holds j s' := by
  cases x with
  | holds => exact h.holder.trans hx
  | gone => exact h.gone hx
  | swept => exact (congrFun h.legacy _).trans hx
  | cleared => exact ⟨h.holder.trans hx.1, h.gone hx.2.1, (congrFun h.notes _).trans hx.2.2⟩
  | seen => exact ⟨h.holder.trans hx.1, h.kept _ hx.2.1, h.inFlight ▸ hx.2.2⟩

theorem grown_addRepo {name : Text} (howned : s.Owned) : Grown s (s.addRepo name) where
  next := by
    show s.nextId ≤ s.nextId + 1
    omega
  dead id hgone := by
    refine getRepoById_eq_none.2 fun row hrow => ?_
    have hne : id ≠ s.nextId := by
      have := hgone.1
      omega
    refine getRepoById_eq_none.1 hgone.2 row (Eq.trans ?_ hrow)
    exact ((setRepo_repos id _).trans (if_neg hne)).symm
  kept id hid := by
    show ((s.setRepo s.nextId _).repos id).isSome
    rw [setRepo_repos]
    split
    · rfl
    · exact hid
  below id row hrow := by
    change (s.setRepo s.nextId _).repos id = some row at hrow
    show id < s.nextId + 1
    rw [setRepo_repos] at hrow
    split at hrow
    · omega
    · exact (howned.below id row hrow).trans (by omega)
  notes := rfl
  legacy := rfl
  holder := rfl
  inFlight := rfl

theorem grown_edit {row row' : RepoRow} (howned : s.Owned) (hrow : s.repos id = some row)
    (hsame : row'.deletedAt = row.deletedAt) : Grown s (s.setRepo id (some row')) where
  next := le_refl s.nextId
  dead k hgone := by
    refine getRepoById_eq_none.2 fun r hr => ?_
    rw [setRepo_repos] at hr
    split at hr
    · subst k
      cases hr
      rw [hsame]
      exact getRepoById_eq_none.1 hgone.2 row hrow
    · exact getRepoById_eq_none.1 hgone.2 r hr
  kept k hk := by
    rw [setRepo_repos]
    split
    · rfl
    · exact hk
  below k r hr := by
    rw [setRepo_repos] at hr
    split at hr
    · subst k
      exact howned.below id row hrow
    · exact howned.below k r hr
  notes := rfl
  legacy := rfl
  holder := rfl
  inFlight := rfl

theorem env_step (hsound : Sound s) (h : EnvStep s s') :
    Sound s' ∧ ∀ (x : Fact) j, x.Holds j s → x.Holds j s' := by
  cases h with
  | clock =>
    refine ⟨hsound.congr rfl rfl rfl rfl hsound.inFlight, fun x j hx => ?_⟩
    cases x <;> exact hx
  | @addRepo name _ =>
    have hgrown := @grown_addRepo s name hsound.toOwned
    exact ⟨hgrown.sound hsound, fun x j hx => hx.grown hgrown⟩
  | edit hrow hsame =>
    have hgrown := grown_edit hsound.toOwned hrow hsame
    exact ⟨hgrown.sound hsound, fun x j hx => hx.grown hgrown⟩
  | @lands before after o s' hflight hlands =>
    have hends : o.Ends { s with inFlight := before ++ after } s' :=
      hlands.elim Op.Done.ends Op.Failed.ends
    have hmem : o ∈ s.inFlight := hflight ▸ List.mem_append_right _ (.head _)
    have hsub : ∀ o' ∈ before ++ after, o' ∈ s.inFlight := fun o' ho' => by
      rw [hflight]
      exact List.mem_append.2 ((List.mem_append.1 ho').imp_right (.tail _))
    have hsound' : Sound { s with inFlight := before ++ after } :=
      hsound.congr rfl rfl rfl rfl fun o' ho' => hsound.inFlight o' (hsub o' ho')
    refine ⟨hends.sound (safe_congr rfl rfl rfl rfl (hsound.inFlight o hmem)) hsound',
      fun x j hx => ?_⟩
    have hbefore : x.Holds j { s with inFlight := before ++ after } := by
      cases x with
      | seen => exact ⟨hx.1, hx.2.1, fun hforget => hx.2.2 (hsub _ hforget)⟩
      | _ => exact hx
    refine hbefore.ends hends ?_
    rintro id rfl rfl
    exact hx.2.2 hmem

theorem Migrated.owned {notes legacy notes' legacy' : Option ByteArray} {row : Option RepoRow}
    (h : Migrated notes legacy notes' legacy') (hnotes : notes.isSome → row.isSome)
    (hlegacy : legacy.isSome → row.isSome) :
    (notes'.isSome → row.isSome) ∧ (legacy'.isSome → row.isSome) := by
  cases h with
  | left => exact ⟨hnotes, hlegacy⟩
  | copied => exact ⟨hlegacy, hlegacy⟩
  | moved => exact ⟨hlegacy, nofun⟩
  | parked => exact ⟨hnotes, nofun⟩

theorem restart_step (hsound : Sound s) (h : Restarted s s') : Sound s' := by
  obtain ⟨notes, legacy, hmigrated, rfl⟩ := h
  have hall := fun id => (hmigrated id).owned (hsound.notes id) (hsound.legacy id)
  exact ⟨⟨hsound.below, fun id => (hall id).1, fun id => (hall id).2⟩, nofun⟩

theorem mem_pending {p : NotesAct (Option Task)} {o : Op} (h : o ∈ pending p) :
    ∃ k, p = .call (.op o) k := by
  cases p with
  | done | fail => cases h
  | @call β c k =>
    cases c with
    | op o' =>
      obtain rfl := List.mem_singleton.1 h
      exact ⟨k, rfl⟩
    | _ => cases h

end

theorem sound_invariant : yard.Invariant follower (fun _ s => Sound s)
    fun a i s => ∀ x ∈ a, x.Holds i s where
  init s hs := by
    obtain ⟨howned, -, hflight⟩ := hs
    refine ⟨howned, fun o ho => ?_⟩
    rw [hflight] at ho
    cases ho
  start n t s _ hsound := ⟨hsound, nofun⟩
  call n i a c s b s' _ hallow hsound ha h := sound_call hallow hsound ha h
  frame n i j a a' c s b s' hij hallow _ ha ha' h x hx :=
    holds_frame hij hallow ha (ha' x hx) h
  go a t i s hready := hready.elim
  leave n i a p s hfollows _ hsound ha := by
    have hallowed : ∀ o ∈ pending p, o.allowed a := fun o ho => by
      obtain ⟨k, rfl⟩ := mem_pending ho
      exact hfollows.1
    refine ⟨hsound.congr rfl rfl rfl rfl fun o ho => ?_, fun j a' hj ha' x hx => ?_⟩
    · rcases List.mem_append.1 ho with ho | ho
      · exact safe_of_allowed (hallowed o ho) ha
      · exact hsound.inFlight o ho
    · have hkept : s.holder = some j → (if s.holder = some i then none else s.holder) = some j :=
        fun h => by
          rw [h, if_neg fun hi => hj (Option.some.inj hi)]
      have hxs := ha' x hx
      cases x with
      | holds => exact hkept hxs
      | gone | swept => exact hxs
      | cleared => exact ⟨hkept hxs.1, hxs.2⟩
      | seen id =>
        refine ⟨hkept hxs.1, hxs.2.1, fun hforget => ?_⟩
        rcases List.mem_append.1 hforget with hforget | hforget
        · exact (ha _ (hallowed _ hforget).2).alone hxs (Ne.symm hj) rfl rfl
        · exact hxs.2.2 hforget
  env n s s' hsound henv := by
    obtain ⟨hsound', hholds⟩ := env_step hsound henv
    exact ⟨hsound', fun a i ha x hx => hholds x i (ha x hx)⟩
  restart n s s' hsound hre := restart_step hsound hre

/-- An operation of a thread, or one that a dropped thread left. -/
def UnderWay (x : Pool.Config yard) (o : Op) : Prop :=
  o ∈ x.state.inFlight ∨ ∃ i k, x.threads i = some (.call (.op o) k)

section
variable {x y z : Pool.Config yard} {id : Int}

theorem sound_reachable (hx : yard.Reachable x) : Sound x.state := (sound_invariant.reachable hx).1

theorem safe_underWay (hx : yard.Reachable x) {o : Op} (h : UnderWay x o) : o.Safe x.state := by
  rcases h with h | ⟨i, k, hthread⟩
  · exact (sound_reachable hx).inFlight o h
  · obtain ⟨-, a, hallow, ha⟩ := sound_invariant.allowed hx hthread
    exact safe_of_allowed hallow ha

theorem gone_step (hx : yard.Reachable x) (hstep : yard.Step x y) (h : x.state.Gone id) :
    y.state.Gone id := by
  cases hstep with
  | start | go | leave => exact h
  | @call threads n i s s' β c k b hthread hcall =>
    obtain ⟨-, a, hallow, ha⟩ := sound_invariant.allowed hx hthread
    exact holds_frame (x := .gone id) (Nat.succ_ne_self i).symm hallow ha h hcall
  | env henv => exact (env_step (sound_reachable hx) henv).2 (.gone id) 0 h
  | restart hre =>
    obtain ⟨_, _, -, rfl⟩ := hre
    exact h

theorem gone_leads (hx : yard.Reachable x) (hrun : yard.Leads (fun _ _ => True) x y)
    (h : x.state.Gone id) : y.state.Gone id := by
  induction hrun with
  | refl => exact h
  | step hrun hstep _ ih => exact gone_step (hrun.reachable hx) hstep ih

/-- A repo once deleted stays so in every run, whoever asks what at the same time, is dropped
half way or starts the process over. A notes file is never left without a row, and nothing is ever
removed of a repo that is live. -/
theorem deleted_for_good (hx : yard.Reachable x) (hrun : yard.Leads (fun _ _ => True) x z) :
    (∀ id, id < x.state.nextId → x.state.getRepoById id = none → z.state.getRepoById id = none) ∧
      (∀ id, z.state.repos id = none → z.state.notes id = none) ∧
      ∀ o id, UnderWay z o → o = .removeClone id ∨ o = .removeNotes id →
        z.state.getRepoById id = none := by
  refine ⟨fun id hid hdeleted => (gone_leads hx hrun ⟨hid, hdeleted⟩).2, fun id hnone => ?_,
    fun o id hunder ho => ?_⟩
  · by_contra hnotes
    have hrow := (sound_reachable (hrun.reachable hx)).notes id (Option.isSome_iff_ne_none.2 hnotes)
    rw [hnone] at hrow
    cases hrow
  · have hsafe := safe_underWay (hrun.reachable hx) hunder
    rcases ho with rfl | rfl <;> exact hsafe.2

/-! A repo is deleted, its request dropped, and the pass of the next process too, on its way. -/

def oneRepo : Grounds where
  repos id := if id = 1 then some ⟨['r'], 0, 0, none⟩ else none
  nextId := 2
  notes _ := none
  legacy _ := none
  holder := none
  inFlight := []
  clock := 7

theorem oneRepo_eq_some {id : Int} {row : RepoRow} (h : oneRepo.repos id = some row) :
    id = 1 ∧ row = ⟨['r'], 0, 0, none⟩ := by
  simp only [oneRepo] at h
  split at h
  · exact ⟨‹_›, (Option.some.inj h).symm⟩
  · cases h

section
variable {threads : Nat → Option (NotesAct (Option Task))} {n i : Nat} {s s' : Grounds} {β : Type}
  {c : NotesCall β} {k : β → NotesAct (Option Task)} {b : β}

theorem start_oneRepo (task : Task) :
    yard.Reachable ⟨update (fun _ => none) 0 (some (yard.body task)), 1, oneRepo⟩ := by
  refine .step (.start ⟨⟨fun id row hrow => ?_, fun _ h => ?_, fun _ h => ?_⟩, rfl, rfl⟩)
    (.start trivial)
  · rw [(oneRepo_eq_some hrow).1]
    decide
  · cases h
  · cases h

theorem yard_call (h : yard.Reachable ⟨update threads i (some (.call c k)), n, s⟩)
    (hstep : c.Step i s s' b) : yard.Reachable ⟨update threads i (some (k b)), n, s'⟩ :=
  h.call hstep

theorem yard_leads {x : Pool.Config yard}
    (h : yard.Leads (fun _ _ => True) x ⟨update threads i (some (.call c k)), n, s⟩)
    (hstep : c.Step i s s' b) :
    yard.Leads (fun _ _ => True) x ⟨update threads i (some (k b)), n, s'⟩ :=
  h.call hstep trivial

/-- The request is dropped, then the process starts over, and its first task is `task`. -/
theorem leads_again (hawaits : c.awaits = true) (task : Task) :
    yard.Leads (fun _ _ => True) ⟨update threads i (some (.call c k)), n, s⟩
      ⟨update (fun _ => none) n (some (yard.body task)), n + 1,
        { s with holder := none, inFlight := [] }⟩ := by
  refine .step (.step (.step .refl (.leave (Function.update_self i _ _) ?_) trivial)
    (.restart ?_) trivial) (.start trivial) trivial
  · exact hawaits
  · exact ⟨s.notes, s.legacy, fun _ => .left, rfl⟩

theorem again (h : yard.Reachable ⟨update threads i (some (.call c k)), n, s⟩)
    (hawaits : c.awaits = true) (task : Task) : ∃ x, yard.Reachable x ∧ x.state = s ∧
      yard.Leads (fun _ _ => True) x ⟨update (fun _ => none) n (some (yard.body task)), n + 1,
        { s with holder := none, inFlight := [] }⟩ :=
  ⟨_, h, rfl, leads_again hawaits task⟩

end

theorem deleted_for_good_dropped : ∃ x z, yard.Reachable x ∧
    yard.Leads (fun _ _ => True) x z ∧ x.state.getRepoById 1 = none ∧
      UnderWay z (.removeNotes 1) ∧ z.state.getRepoById 1 = none := by
  have h := start_oneRepo (.deleteRepo 1)
  have h := yard_call (c := .lock) (b := ()) h ⟨rfl, rfl⟩
  have h := yard_call (c := .getRepoById 1) (b := .ok (some ⟨['r'], 0, 0, none⟩)) h
    ⟨rfl, fun _ h => by cases h; rfl⟩
  have h := yard_call (c := .op (.softDelete 1)) (b := .ok ()) h ⟨rfl, fun id row hrow => by
    rw [(oneRepo_eq_some hrow).2]
    decide, rfl⟩
  obtain ⟨x, hx, hs, hz⟩ := again (c := .logUserEvent "deleted r (#1)".toList) h rfl
    .reapDeletedRepos
  have hz := yard_leads (c := .deletedRepoIds) (b := .ok [1]) hz ⟨rfl, fun ids hids => by
    cases hids
    refine ⟨List.pairwise_singleton _ 1, fun id => ?_, List.pairwise_singleton _ 1⟩
    rw [List.mem_singleton]
    by_cases hid : id = 1
    · subst hid
      exact iff_of_true rfl rfl
    · refine iff_of_false hid fun hdeleted => ?_
      simp [Grounds.repoIsDeleted, Grounds.setRepo, oneRepo, hid] at hdeleted⟩
  have hz := yard_leads (c := .lock) (b := ()) hz ⟨rfl, rfl⟩
  have hz := yard_leads (c := .op (.removeClone 1)) (b := .ok ()) hz rfl
  have hz := hz.step (.leave (Function.update_self 1 _ _) rfl) trivial
  have hdeleted : x.state.getRepoById 1 = none := by
    rw [hs]
    rfl
  refine ⟨x, _, hx, hz, hdeleted, Or.inl (List.mem_append_left _ (.head _)),
    (deleted_for_good hx hz).1 1 ?_ hdeleted⟩
  rw [hs]
  decide

/-- The file holds all of `text`, at its beginning. -/
def Grounds.Begins (s : Grounds) (id : Int) (text : ByteArray) : Prop :=
  ∃ more, s.notes id = some (text ++ more)

theorem begins_append {s : Grounds} {text bytes : ByteArray} (k : Int) (h : s.Begins id text) :
    (s.append k bytes).Begins id text := by
  obtain ⟨more, hmore⟩ := h
  by_cases hk : id = k
  · subst hk
    exact ⟨more ++ bytes, by rw [append_notes, if_pos rfl, hmore, Option.getD_some,
      ByteArray.append_assoc]⟩
  · exact ⟨more, by rw [append_notes, if_neg hk, hmore]⟩

theorem begins_ends {o : Op} {s s' : Grounds} {text : ByteArray} (h : o.Ends s s')
    (hsafe : o.Safe s) (hbegins : s.Begins id text) : s'.Gone id ∨ s'.Begins id text := by
  rcases h.notes id with hsame | ⟨rfl, -⟩
  · obtain ⟨more, hmore⟩ := hbegins
    exact Or.inr ⟨more, hsame.trans hmore⟩
  · exact Or.inl (h.gone hsafe)

theorem begins_step (hx : yard.Reachable x) (hstep : yard.Step x y) {text : ByteArray}
    (h : x.state.Begins id text) : y.state.Gone id ∨ y.state.Begins id text := by
  cases hstep with
  | start | go | leave => exact Or.inr h
  | @call threads n i s s' β c k b hthread hcall =>
    replace hcall : c.Step i s s' b := hcall
    cases c with
    | op o =>
      exact begins_ends (op_step hcall).1 (safe_underWay hx (Or.inr ⟨i, k, hthread⟩)) h
    | appendRepoNote target =>
      rcases append_step hcall with rfl | ⟨bytes, rfl⟩
      · exact Or.inr h
      · exact Or.inr (begins_append target h)
    | lock =>
      obtain ⟨-, rfl⟩ := hcall
      exact Or.inr h
    | unlock =>
      obtain rfl : s' = _ := hcall
      exact Or.inr h
    | getRepoById | repoIsDeleted | deletedRepoIds | repoNotes =>
      obtain ⟨rfl, -⟩ := hcall
      exact Or.inr h
    | logUserEvent | respond =>
      obtain rfl : s' = s := hcall
      exact Or.inr h
  | env henv =>
    cases henv with
    | clock | addRepo | edit => exact Or.inr h
    | lands hflight hlands =>
      refine begins_ends (hlands.elim Op.Done.ends Op.Failed.ends) ?_ h
      refine safe_congr rfl rfl rfl rfl ((sound_reachable hx).inFlight _ ?_)
      exact hflight ▸ List.mem_append_right _ (.head _)
  | restart hre =>
    obtain ⟨notes, legacy, hmigrated, rfl⟩ := hre
    obtain ⟨more, hmore⟩ := h
    refine Or.inr ⟨more, Eq.trans ?_ hmore⟩
    have hsome := hmigrated id
    rw [hmore] at hsome ⊢
    show notes id = _
    generalize notes id = after at hsome
    generalize legacy id = parked at hsome
    cases hsome with
    | left | parked => rfl
    | copied hnone | moved hnone => cases hnone

theorem begins_leads (hx : yard.Reachable x) (hrun : yard.Leads (fun _ _ => True) x y)
    {text : ByteArray} (h : x.state.Begins id text) :
    y.state.Gone id ∨ y.state.Begins id text := by
  induction hrun with
  | refl => exact Or.inr h
  | step hrun hstep _ ih =>
    rcases ih with hgone | hbegins
    · exact Or.inl (gone_step (hrun.reachable hx) hstep hgone)
    · exact begins_step (hrun.reachable hx) hstep hbegins

/-- A note once appended is in its repo's file for as long as the repo lives, with all that the
file held before it and nothing in between. -/
theorem note_kept (hx : yard.Reachable x) {i : Nat} {repoName note : Text} {category : Option Text}
    {notes : Text} {s' : Grounds} {k : Except NotesError Text → NotesAct (Option Task)}
    (hthread : x.threads i = some (.call (.appendRepoNote id repoName note category) k))
    (happended : (NotesCall.appendRepoNote id repoName note category).Step i x.state s' (.ok notes))
    (hrun : yard.Leads (fun _ _ => True) ⟨update x.threads i (some (k (.ok notes))), x.next, s'⟩ z)
    (hlive : (z.state.getRepoById id).isSome) :
    ∃ entry more, x.state.entry id repoName note category = .ok entry ∧
      z.state.notes id = some ((x.state.notes id).getD .empty ++ entry.utf8Encode ++ more) := by
  have hy : yard.Reachable ⟨update x.threads i (some (k (.ok notes))), x.next, s'⟩ :=
    hx.step (.call hthread happended)
  obtain ⟨entry, hentry, rfl, -⟩ := happended
  have hbegins : (x.state.append id entry.utf8Encode).Begins id
      ((x.state.notes id).getD .empty ++ entry.utf8Encode) :=
    ⟨.empty, by rw [append_notes, if_pos rfl, ByteArray.append_empty]⟩
  rcases begins_leads hy hrun hbegins with hgone | ⟨more, hmore⟩
  · rw [hgone.2] at hlive
    cases hlive
  · exact ⟨entry, more, hentry, hmore⟩

end

/-! A note is appended, then its request is dropped and the process starts over. -/

def aNote : NoteBody := ⟨some 1, some ['n'], .absent⟩

def noting : Grounds := { oneRepo with holder := some 0 }

theorem noting_reachable : ∃ threads k k', yard.Reachable ⟨threads, 1, noting⟩ ∧
    threads 0 = some (.call (.appendRepoNote 1 ['r'] ['n'] none) k) ∧
      k (.ok []) = .call (.logUserEvent "note added to r".toList) k' := by
  have h := start_oneRepo (.addRepoNote aNote)
  have h := yard_call (c := .lock) (b := ()) h ⟨rfl, rfl⟩
  have h := yard_call (c := .getRepoById 1) (b := .ok (some ⟨['r'], 0, 0, none⟩)) h
    ⟨rfl, fun _ h => by cases h; rfl⟩
  exact ⟨_, _, _, h, Function.update_self 0 _ _, rfl⟩

theorem note_kept_dropped : ∃ z entry more, yard.Reachable z ∧
    noting.entry 1 ['r'] ['n'] none = .ok entry ∧
      z.state.notes 1 = some (ByteArray.empty ++ entry.utf8Encode ++ more) := by
  obtain ⟨threads, k, k', hx, hthread, hk⟩ := noting_reachable
  obtain ⟨entry, hentry⟩ : ∃ entry, noting.entry 1 ['r'] ['n'] none = .ok entry := ⟨_, rfl⟩
  have happended : (NotesCall.appendRepoNote 1 ['r'] ['n'] none).Step 0 noting
      (noting.append 1 entry.utf8Encode) (.ok []) := ⟨entry, hentry, rfl, Or.inr rfl⟩
  obtain ⟨z, hlive, hz⟩ : ∃ z : Pool.Config yard, (z.state.getRepoById 1).isSome ∧
      yard.Leads (fun _ _ => True)
        ⟨update threads 0 (some (k (.ok []))), 1, noting.append 1 entry.utf8Encode⟩ z := by
    rw [hk]
    refine ⟨_, ?_, leads_again rfl .reapDeletedRepos⟩
    rfl
  obtain ⟨entry', more, hentry', hkept⟩ := note_kept hx hthread happended hz hlive
  exact ⟨z, entry', more, hz.reachable (hx.step (.call hthread happended)), hentry', hkept⟩

end Hunter.Notes
