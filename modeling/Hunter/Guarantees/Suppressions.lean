import Hunter.Guarantees.OperatorDecisions
set_option autoImplicit false

namespace Hunter
open Effect

/-! A suppressed finding is reopened only where a worker's rejection has lapsed. -/

/-- What git told of an anchor's files, in the clone of a repo and up to a commit. -/
structure Comparison where
  repoId : Nat
  anchor : VerdictAnchor
  at_ : Text
  diff : GitDiff

/-- The comparison made last, the repo and the finding of the entry last found on record, and the
findings an operator rejected or set aside. -/
structure Suppressing where
  compared : Option Comparison
  filed : Option (Nat × Nat)
  byOperator : Nat → Bool

def Store.suppressed (s : Store) (f : Nat) : Bool :=
  (s.finding? f).any fun x => x.status.isSuppressed

def Call.compares : {β : Type} → Call β → β → Option Comparison
  | _, .tree (.diffNames repoId anchor at_), diff => some ⟨repoId, anchor, at_, diff⟩
  | _, _, _ => none

/-- The repo a call files an entry for, and the finding on record that the entry is. -/
def Call.files : {β : Type} → Call β → β → Option (Nat × Nat)
  | _, .store (.upsertFinding repoId _ _), .ok (f, false) => some (repoId, f)
  | _, _, _ => none

def Suppressing.seen {β : Type} (c : Call β) (w : World) (b : β) (w' : World)
    (n : Suppressing) : Suppressing where
  compared := (c.compares b).or n.compared
  filed := (c.files b).or n.filed
  byOperator f := n.byOperator f && w.sameStatus w' f

def Suppressing.heard (w w' : World) (n : Suppressing) : Suppressing :=
  { n with
    byOperator := fun f =>
      if w.sameStatus w' f then n.byOperator f else w'.store.suppressed f }

/-- The daemon, with the comparisons it makes, the entries it files again and the operator's
suppressions noted. -/
def suppressing : Machine Call Text (World × Suppressing) :=
  daemon.watch { compared := none, filed := none, byOperator := fun _ => false } Suppressing.seen
    Suppressing.heard

/-- The comparison made last, in the clone of repo `r` and up to `at_`, is of the finding's anchor
and speaks for re-checking its verdict. -/
def Lapsed (s : World × Suppressing) (f r : Nat) (at_ : Text) : Prop :=
  ∃ x anchor diff, s.1.store.finding? f = some x ∧ x.anchor = some anchor ∧
    s.2.compared = some ⟨r, anchor, at_, diff⟩ ∧ (anchor.changed diff).isSome = true

structure Suppressed (a : Memory) (s : World × Suppressing) : Prop where
  rejected : ∀ f x, s.1.store.finding? f = some x → x.anchor.isSome = true → x.status = .rejected
  queued : ∀ f x, Fact.queued f ∈ a → s.1.store.finding? f = some x → x.anchor = none
  anchored : ∀ f anchor, Fact.anchored f anchor ∈ a →
    ∃ x, s.1.store.finding? f = some x ∧ x.anchor = some anchor
  lapsed : ∀ f r at_, Fact.lapsed f r at_ ∈ a → Lapsed s f r at_
  filed : ∀ f r, Fact.filed f r ∈ a → s.2.filed = some (r, f)
  byOperator : ∀ f x, s.2.byOperator f = true → s.1.store.finding? f = some x →
    x.status.isSuppressed = true ∧ x.anchor = none

section
variable {β : Type} {c : StoreCall β} {s s' : Store} {b : β} {a : Memory} {f : Nat} {x x' : Finding}

def StoreCall.reopens (f : Nat) : {β : Type} → StoreCall β → Prop
  | _, .reopenSuppressed g _ => g = f
  | _, _ => False

theorem not_suppressed_of_held {status : FindingStatus} (hknown : ∀ y ∈ a, y.holds s)
    (hx : s.finding? f = some x) (hheld : Fact.held f status ∈ a) :
    x.status.isSuppressed = false := by
  have hstatus := status_of_held hknown hx hheld
  obtain ⟨hisHeld, -⟩ := hknown _ hheld
  rw [hstatus]
  cases status <;> first | rfl | cases hisHeld

/-- Of the daemon's statements only a reopening and a fix's hold move a suppressed finding. -/
theorem reopens_of_moves {target : FindingStatus} (hallow : c.allowed a)
    (hknown : ∀ y ∈ a, y.holds s) (hx : s.finding? f = some x)
    (hsuppressed : x.status.isSuppressed = true) (hmoves : c.moves f x.status target) :
    c.reopens f ∨ target = .blocked ∧ Fact.queued f ∈ a := by
  have hheld : ∀ {status}, Fact.held f status ∈ a → False := by
    intro status h
    rw [not_suppressed_of_held hknown hx h] at hsuppressed
    cases hsuppressed
  cases c with
  | setFindingStatus g status =>
    obtain ⟨rfl, rfl⟩ := hmoves
    cases target with
    | new => exact (hheld hallow).elim
    | queued => exact (hallow.elim hheld fun h => hheld h.1).elim
    | merged => exact (hheld hallow).elim
    | _ => exact hallow.elim
  | setAnchoredVerdict =>
    obtain ⟨rfl, -⟩ := hmoves
    exact (hallow.2.elim hheld fun h => h.elim hheld fun h => hheld h.2.1).elim
  | claimInProgress g src tgt =>
    obtain ⟨rfl, hsrc, -⟩ := hmoves
    rw [hsrc] at hsuppressed
    rcases hallow with ⟨rfl, -⟩ | ⟨rfl, -⟩ <;> cases hsuppressed
  | setFindingPrOpen =>
    obtain ⟨rfl, -⟩ := hmoves
    exact (hheld hallow).elim
  | blockFixJob =>
    obtain ⟨rfl, rfl⟩ := hmoves
    exact Or.inr ⟨rfl, hallow.2.1.resolve_left hheld⟩
  | recordClosedHarvest =>
    rw [hmoves.2.1] at hsuppressed
    cases hsuppressed
  | reopenSuppressed => exact Or.inl hmoves.1
  | refreshDepUpdate =>
    rw [hmoves.2.1] at hsuppressed
    cases hsuppressed
  | supersedeUnproposedDepUpdates =>
    rw [hmoves.1] at hsuppressed
    cases hsuppressed
  | handOverQueuedDepUpdates =>
    rcases hmoves.1 with h | h
    · rw [h] at hsuppressed
      cases hsuppressed
    · rw [h] at hsuppressed
      cases hsuppressed
  | _ => exact hmoves.elim

theorem anchor_of_reopens (h : c.apply s = some (b, s')) (hreopens : c.reopens f)
    (hx : s.finding? f = some x) (hsuppressed : x.status.isSuppressed = true)
    (hx' : s'.finding? f = some x') : x'.anchor = none := by
  cases c with
  | reopenSuppressed g row =>
    obtain rfl := hreopens
    cases h
    rw [Store.reopenSuppressed, Store.updateFindingIf, hx, Option.any_some, if_pos hsuppressed,
      Store.finding?_modifyFinding, if_pos rfl, hx] at hx'
    cases hx'
    rfl
  | _ => exact hreopens.elim

theorem rejected_step (h : c.apply s = some (b, s')) (hallow : c.allowed a)
    (hknown : ∀ y ∈ a, y.holds s)
    (hrejected : ∀ f x, s.finding? f = some x → x.anchor.isSome = true → x.status = .rejected)
    (hqueued : ∀ f x, Fact.queued f ∈ a → s.finding? f = some x → x.anchor = none)
    (hx' : s'.finding? f = some x') (hanchor : x'.anchor.isSome = true) :
    x'.status = .rejected := by
  rcases StoreCall.finding_cases h hx' with ⟨x, hx, hchange⟩ | ⟨-, hfiled⟩
  · have hkeep : x.anchor.isSome = true → x'.status = .rejected := by
      intro hold
      have hstatus := hrejected f x hx hold
      rcases hchange.status with hsame | hmoves
      · exact hsame.trans hstatus
      · have hsuppressed : x.status.isSuppressed = true := by rw [hstatus]; rfl
        rcases reopens_of_moves hallow hknown hx hsuppressed hmoves with hreopens | ⟨-, hq⟩
        · rw [anchor_of_reopens h hreopens hx hsuppressed hx'] at hanchor
          cases hanchor
        · rw [hqueued f x hq hx] at hold
          cases hold
    rcases hchange.anchor with hsame | hedits
    · rw [hsame] at hanchor
      exact hkeep hanchor
    · cases c with
      | setAnchoredVerdict g status reason anchor =>
        obtain ⟨-, hedit, hstatus⟩ := hedits
        rw [hedit] at hanchor
        exact hstatus.trans (hallow.1.1 hanchor)
      | recordClosedHarvest g status reason anchor t =>
        obtain ⟨-, -, hedit, hstatus⟩ := hedits
        rw [hedit] at hanchor
        exact hstatus.trans (hallow.1 hanchor)
      | reopenSuppressed =>
        rw [hedits.2] at hanchor
        cases hanchor
      | reconfirmAnchor =>
        rw [hedits.2] at hanchor
        exact hkeep hanchor
      | _ => exact hedits.elim
  · cases c with
    | upsertFinding =>
      cases hfiled
      cases hanchor
    | _ => cases hfiled

theorem anchor_kept {y : Fact} (h : c.apply s = some (b, s')) (hon : y.onAnchor f = true)
    (hforget : ¬ c.forgets b y) (hx : s.finding? f = some x) :
    ∃ x', s'.finding? f = some x' ∧ x'.anchor = x.anchor := by
  obtain ⟨x', hx', hchange⟩ := StoreCall.edits h f x hx
  refine ⟨x', hx', hchange.anchor.resolve_right fun hedits => hforget ?_⟩
  cases c with
  | setAnchoredVerdict | recordClosedHarvest | reopenSuppressed =>
    obtain ⟨rfl, -⟩ := hedits
    exact Or.inr hon
  | reconfirmAnchor =>
    obtain ⟨rfl, -⟩ := hedits
    exact hon
  | _ => exact hedits.elim

theorem queued_kept (h : c.apply s = some (b, s')) (hknown : ∀ y ∈ a, y.holds s)
    (hqueued : ∀ f x, Fact.queued f ∈ a → s.finding? f = some x → x.anchor = none)
    (hin : Fact.queued f ∈ a) (hforget : ¬ c.forgets b (.queued f))
    (hx' : s'.finding? f = some x') : x'.anchor = none := by
  obtain ⟨x, hx, hunclaimed⟩ := hknown _ hin
  obtain ⟨y, hy, hchange⟩ := StoreCall.edits h f x hx
  cases hx'.symm.trans hy
  have hnone := hqueued f x hin hx
  rcases hchange.anchor with hsame | hedits
  · exact hsame.trans hnone
  · cases c with
    | setAnchoredVerdict =>
      obtain ⟨rfl, -⟩ := hedits
      exact absurd (Or.inl (by simp [Fact.onStatus])) hforget
    | recordClosedHarvest =>
      rw [hedits.2.1] at hunclaimed
      cases hunclaimed
    | reopenSuppressed => exact hedits.2
    | reconfirmAnchor => simpa [hnone] using hedits.2
    | _ => exact hedits.elim

theorem learns_queued (h : c.apply s = some (b, s')) (hlearn : c.learns a b (.queued f)) :
    ∃ x, s'.finding? f = some x ∧ x.status = .queued := by
  cases c with
  | findingsWithStatus status =>
    cases h
    obtain ⟨row, hrow, ⟨-, hx⟩ | ⟨rfl, hx⟩ | ⟨-, hx⟩⟩ := hlearn
    · cases hx
    · cases hx
      exact ⟨row.val, mem_findingsWithStatus.1 hrow⟩
    · split at hx <;> cases hx
  | listResumableJobs =>
    obtain ⟨row, -, hx | hx | hx | ⟨file, -, hx⟩ | ⟨k, g, -, -, hx⟩⟩ := hlearn
    · cases hx
    · cases hx
    · cases hx
    · cases hx
    · cases k <;> cases hx
  | _ => simp [StoreCall.learns] at hlearn

theorem learns_anchored {anchor : VerdictAnchor} (h : c.apply s = some (b, s'))
    (hlearn : c.learns a b (.anchored f anchor)) :
    ∃ x, s'.finding? f = some x ∧ x.anchor = some anchor := by
  cases c with
  | verdictAnchor g =>
    obtain ⟨anchor', rfl, hx⟩ := hlearn
    cases hx
    simp only [StoreCall.apply, Option.some.injEq, Prod.mk.injEq] at h
    obtain ⟨hanchor, rfl⟩ := h
    exact Option.bind_eq_some_iff.1 hanchor
  | findingsWithStatus status =>
    obtain ⟨row, -, hx⟩ := hlearn
    cases tells_listed hx
  | listResumableJobs =>
    obtain ⟨row, -, hx⟩ := hlearn
    cases offerTells_listed hx
  | _ => simp [StoreCall.learns] at hlearn

theorem not_learns_lapsed {r : Nat} {at_ : Text} : ¬ c.learns a b (.lapsed f r at_) := by
  intro hlearn
  cases c with
  | findingsWithStatus status =>
    obtain ⟨row, -, hx⟩ := hlearn
    cases tells_listed hx
  | listResumableJobs =>
    obtain ⟨row, -, hx⟩ := hlearn
    cases offerTells_listed hx
  | _ => simp [StoreCall.learns] at hlearn

theorem learns_filed {r : Nat} (hlearn : c.learns a b (.filed f r)) :
    (Call.store c).files (.ok b) = some (r, f) := by
  cases c with
  | upsertFinding repoId row type =>
    obtain ⟨g, isNew⟩ := b
    obtain ⟨rfl, hx⟩ := hlearn
    cases hx
    rfl
  | findingsWithStatus =>
    obtain ⟨row, -, hx⟩ := hlearn
    cases tells_listed hx
  | listResumableJobs =>
    obtain ⟨row, -, hx⟩ := hlearn
    cases offerTells_listed hx
  | _ => simp [StoreCall.learns] at hlearn

theorem files_of_keeps {r : Nat} (hforget : ¬ c.forgets b (.filed f r)) :
    (Call.store c).files (.ok b) = none := by
  cases c with
  | upsertFinding repoId row type =>
    obtain ⟨g, isNew⟩ := b
    cases isNew with
    | true => rfl
    | false => exact absurd ⟨rfl, rfl⟩ hforget
  | _ => rfl

theorem byOperator_kept (h : c.apply s = some (b, s')) (hallow : c.allowed a)
    (hknown : ∀ y ∈ a, y.holds s) (hx : s.finding? f = some x)
    (hsuppressed : x.status.isSuppressed = true) (hnone : x.anchor = none)
    (hx' : s'.finding? f = some x') : x'.anchor = none := by
  obtain ⟨y, hy, hchange⟩ := StoreCall.edits h f x hx
  cases hx'.symm.trans hy
  rcases hchange.anchor with hsame | hedits
  · exact hsame.trans hnone
  · have hheld : ∀ {status}, Fact.held f status ∈ a → False := by
      intro status hin
      rw [not_suppressed_of_held hknown hx hin] at hsuppressed
      cases hsuppressed
    cases c with
    | setAnchoredVerdict =>
      obtain ⟨rfl, -⟩ := hedits
      exact (hallow.2.elim hheld fun h => h.elim hheld fun h => hheld h.2.1).elim
    | recordClosedHarvest =>
      rw [hedits.2.1] at hsuppressed
      cases hsuppressed
    | reopenSuppressed => exact hedits.2
    | reconfirmAnchor => simpa [hnone] using hedits.2
    | _ => exact hedits.elim

end

theorem status_of_sameStatus {w w' : World} {f : Nat} {x x' : Finding}
    (h : w.sameStatus w' f = true) (hx : w.store.finding? f = some x)
    (hx' : w'.store.finding? f = some x') : x'.status = x.status := by
  simpa [World.sameStatus, Store.statusOf, hx, hx', eq_comm] using h

/-- Facts of the next memory that a call of git, the forge or a tree leaves. -/
theorem Suppressed.mono {a a' : Memory} {w w' : World} {n n' : Suppressing}
    (h : Suppressed a (w, n)) (hstore : w'.store = w.store)
    (hqueued : ∀ f, Fact.queued f ∈ a' → Fact.queued f ∈ a)
    (hanchored : ∀ f anchor, Fact.anchored f anchor ∈ a' → Fact.anchored f anchor ∈ a)
    (hlapsed : ∀ f r at_, Fact.lapsed f r at_ ∈ a' → Lapsed (w, n') f r at_)
    (hfiled : ∀ f r, Fact.filed f r ∈ a' → n'.filed = some (r, f))
    (hoperator : ∀ f, n'.byOperator f = true → n.byOperator f = true) :
    Suppressed a' (w', n') where
  rejected := by rw [hstore]; exact h.rejected
  queued f x hin := by rw [hstore]; exact h.queued f x (hqueued f hin)
  anchored f anchor hin := by rw [hstore]; exact h.anchored f anchor (hanchored f anchor hin)
  lapsed := by
    simp only [Lapsed, hstore]
    exact hlapsed
  filed := hfiled
  byOperator f x hby := by rw [hstore]; exact h.byOperator f x (hoperator f hby)

theorem suppressed_store {β : Type} {c : StoreCall β} {a : Memory} {w : World} {n : Suppressing}
    {s' : Store} {b : β} (happly : c.apply w.store = some (b, s')) (hallow : c.allowed a)
    (hknown : ∀ y ∈ a, y.holds w.store) (hinv : Suppressed a (w, n)) :
    Suppressed (a.next (.store c) (.ok b))
      ({ w with store := s' }, Suppressing.seen (.store c) w (.ok b) { w with store := s' } n) := by
  have hrejected : ∀ f x, s'.finding? f = some x → x.anchor.isSome = true →
      x.status = .rejected := fun f x hx =>
    rejected_step happly hallow hknown hinv.rejected hinv.queued hx
  refine ⟨hrejected, ?_, ?_, ?_, ?_, ?_⟩
  · rintro f x (⟨hin, hforget⟩ | hlearn) hx
    · exact queued_kept happly hknown hinv.queued hin hforget hx
    · obtain ⟨y, hy, hstatus⟩ := learns_queued happly hlearn
      cases hx.symm.trans hy
      cases hanchor : x.anchor with
      | none => rfl
      | some anchor =>
        have := hrejected f x hx (by rw [hanchor]; rfl)
        rw [hstatus] at this
        cases this
  · rintro f anchor (⟨hin, hforget⟩ | hlearn)
    · obtain ⟨x, hx, hanchor⟩ := hinv.anchored f anchor hin
      obtain ⟨x', hx', hsame⟩ := anchor_kept happly (by simp [Fact.onAnchor]) hforget hx
      exact ⟨x', hx', hsame.trans hanchor⟩
    · exact learns_anchored happly hlearn
  · rintro f r at_ (⟨hin, hforget⟩ | hlearn)
    · obtain ⟨x, anchor, diff, hx, hanchor, hcompared, hchanged⟩ := hinv.lapsed f r at_ hin
      obtain ⟨x', hx', hsame⟩ := anchor_kept happly (by simp [Fact.onAnchor]) hforget hx
      exact ⟨x', anchor, diff, hx', hsame.trans hanchor, hcompared, hchanged⟩
    · exact (not_learns_lapsed hlearn).elim
  · rintro f r (⟨hin, hforget⟩ | hlearn)
    · simpa only [Suppressing.seen, files_of_keeps hforget, Option.none_or] using hinv.filed f r hin
    · simp [Suppressing.seen, learns_filed hlearn]
  · intro f x' hby hx'
    simp only [Suppressing.seen, Bool.and_eq_true] at hby
    have hstatus := of_decide_eq_true hby.2
    cases hx : w.store.finding? f with
    | none => simp [Store.statusOf, hx, hx'] at hstatus
    | some x =>
      obtain ⟨hsuppressed, hnone⟩ := hinv.byOperator f x hby.1 hx
      rw [status_of_sameStatus hby.2 hx hx']
      exact ⟨hsuppressed, byOperator_kept happly hallow hknown hx hsuppressed hnone hx'⟩

theorem learns_lapsed {β : Type} {c : TreeCall β} {a : Memory} {b : β} {f r : Nat} {at_ : Text}
    (h : c.learns a b (.lapsed f r at_)) : ∃ anchor diff,
      (Call.tree c).compares b = some ⟨r, anchor, at_, diff⟩ ∧
        (anchor.changed diff).isSome = true ∧ Fact.anchored f anchor ∈ a := by
  cases c with
  | diffNames repoId anchor at_ =>
    obtain ⟨hchanged, g, hin, hx⟩ := h
    cases hx
    exact ⟨anchor, b, rfl, hchanged, hin⟩
  | prompt id brief => cases brief <;> simp [TreeCall.learns] at h
  | _ => simp [TreeCall.learns] at h

theorem compares_of_keeps {β : Type} {c : TreeCall β} {b : β} {f r : Nat} {at_ : Text}
    (h : ¬ (Call.tree c).forgets b (.lapsed f r at_)) : (Call.tree c).compares b = none := by
  cases c with
  | diffNames => exact absurd rfl h
  | _ => rfl

theorem suppressed_call {β : Type} {c : Call β} {a : Memory} {w w' : World} {n : Suppressing}
    {b : β} (hallow : c.allowed a) (hknown : Known a w) (hinv : Suppressed a (w, n))
    (h : CallStep c w b w') :
    Suppressed (a.next c b) (w', Suppressing.seen c w b w' n) := by
  have hold : ∀ f, (Suppressing.seen c w b w' n).byOperator f = true → n.byOperator f = true :=
    fun f hby => (Bool.and_eq_true_iff.1 hby).1
  cases c with
  | ask q =>
    rw [next_ask]
    exact hinv.mono (congrArg World.store h.leaves) (fun _ => id) (fun _ _ => id) hinv.lapsed
      hinv.filed hold
  | tree c =>
    refine hinv.mono h.leaves ?_ ?_ ?_ ?_ hold
    · rintro f (hin | hlearn)
      · exact hin.1
      · cases TreeCall.learns_told hlearn
    · rintro f anchor (hin | hlearn)
      · exact hin.1
      · cases TreeCall.learns_told hlearn
    · rintro f r at_ (⟨hin, hforget⟩ | hlearn)
      · simpa only [Lapsed, Suppressing.seen, compares_of_keeps hforget, Option.none_or] using
          hinv.lapsed f r at_ hin
      · obtain ⟨anchor, diff, hcompares, hchanged, hin⟩ := learns_lapsed hlearn
        obtain ⟨x, hx, hanchor⟩ := hinv.anchored f anchor hin
        exact ⟨x, anchor, diff, hx, hanchor, by simp [Suppressing.seen, hcompares], hchanged⟩
    · rintro f r (hin | hlearn)
      · exact hinv.filed f r hin.1
      · cases TreeCall.learns_told hlearn
  | store c =>
    rcases h.leaves with ⟨b', s', rfl, happly, rfl⟩ | ⟨⟨e, rfl⟩, rfl⟩
    · exact suppressed_store happly hallow hknown.facts hinv
    · refine hinv.mono rfl ?_ ?_ ?_ ?_ hold
      · exact fun f hin => hin.elim And.left False.elim
      · exact fun f anchor hin => hin.elim And.left False.elim
      · exact fun f r at_ hin => hinv.lapsed f r at_ (hin.elim And.left False.elim)
      · intro f r hin
        have hnone : (Call.store c).files (.error e) = none := by cases c <;> rfl
        simpa only [Suppressing.seen, hnone, Option.none_or] using
          hinv.filed f r (hin.elim And.left False.elim)

theorem suppressed_request {a : Memory} {w : World} {n : Suppressing} {r : Request} {s' : Store}
    (hinv : Suppressed a (w, n)) (haccept : Accepts w.store r s') :
    Suppressed a ({ w with store := s' }, Suppressing.heard w { w with store := s' } n) := by
  have hanchor : ∀ {f x x'}, w.store.finding? f = some x → OperatorChange x x' →
      x.anchor.isSome = true → x'.anchor = x.anchor := by
    intro f x x' hx hchange hsome
    refine hchange.anchor.resolve_right fun h => ?_
    have hawaits := h.2
    rw [hinv.rejected f x hx hsome] at hawaits
    cases hawaits
  have hnone : ∀ {x x'}, OperatorChange x x' → x.anchor = none → x'.anchor = none := by
    intro x x' hchange hx
    rcases hchange.anchor with hsame | h
    · exact hsame.trans hx
    · exact h.1
  have hkept : ∀ {f anchor}, (∃ x, w.store.finding? f = some x ∧ x.anchor = some anchor) →
      ∃ x, s'.finding? f = some x ∧ x.anchor = some anchor := by
    rintro f anchor ⟨x, hx, hsome⟩
    obtain ⟨x', hx', hchange⟩ := haccept.edits f x hx
    exact ⟨x', hx', (hanchor hx hchange (by rw [hsome]; rfl)).trans hsome⟩
  refine ⟨?_, ?_, ?_, ?_, hinv.filed, ?_⟩
  · intro f x' hx' hsome
    obtain ⟨x, hx, hchange⟩ := haccept.finding hx'
    have hold : x.anchor.isSome = true := by
      rcases hchange.anchor with hsame | h
      · rw [← hsame]
        exact hsome
      · rw [h.1] at hsome
        cases hsome
    have hstatus := hinv.rejected f x hx hold
    refine (hchange.status.resolve_right ?_).trans hstatus
    rw [hstatus]
    rintro (⟨h, -⟩ | ⟨h, -⟩ | ⟨h, -⟩) <;> cases h
  · intro f x' hin hx'
    obtain ⟨x, hx, hchange⟩ := haccept.finding hx'
    exact hnone hchange (hinv.queued f x hin hx)
  · exact fun f anchor hin => hkept (hinv.anchored f anchor hin)
  · intro f r at_ hin
    obtain ⟨x, anchor, diff, hx, hsome, hcompared, hchanged⟩ := hinv.lapsed f r at_ hin
    obtain ⟨x', hx', hsome'⟩ := hkept ⟨x, hx, hsome⟩
    exact ⟨x', anchor, diff, hx', hsome', hcompared, hchanged⟩
  · intro f x' hby hx'
    obtain ⟨x, hx, hchange⟩ := haccept.finding hx'
    simp only [Suppressing.heard] at hby
    split at hby
    · rename_i hsame
      obtain ⟨hsuppressed, hx0⟩ := hinv.byOperator f x hby hx
      rw [status_of_sameStatus hsame hx hx']
      exact ⟨hsuppressed, hnone hchange hx0⟩
    · rename_i hmoved
      simp only [Store.suppressed] at hby
      rw [hx', Option.any_some] at hby
      refine ⟨hby, hnone hchange ?_⟩
      -- a row with an anchor is rejected, and no operator moves it
      cases hx0 : x.anchor with
      | none => rfl
      | some anchor =>
        have hstatus := hinv.rejected f x hx (by rw [hx0]; rfl)
        refine absurd ?_ hmoved
        have hsame : x'.status = x.status := hchange.status.resolve_right (by
          rw [hstatus]
          rintro (⟨h, -⟩ | ⟨h, -⟩ | ⟨h, -⟩) <;> cases h)
        simp [World.sameStatus, Store.statusOf, hx, hx', hsame]

theorem Suppressed.entry {a : Memory} {s : World × Suppressing}
    (h : Suppressed a s) (phase : Phase) (hready : ∀ x ∈ phase.known, x = .dispatching ∨ x ∈ a) :
    Suppressed phase.known s :=
  h.mono rfl (fun _ hin => (hready _ hin).resolve_left nofun)
    (fun _ _ hin => (hready _ hin).resolve_left nofun)
    (fun f r at_ hin => h.lapsed f r at_ ((hready _ hin).resolve_left nofun))
    (fun f r hin => h.filed f r ((hready _ hin).resolve_left nofun)) fun _ => id

theorem suppressed_invariant : Machine.InvariantUnder suppressing (follower.watch _ _ _)
    (fun a s => Known a s.1) Suppressed where
  init s hs := by
    obtain ⟨w, n⟩ := s
    obtain ⟨hw, hn⟩ := hs
    cases hw
    cases hn
    refine ⟨fun f x hx => ?_, fun f x hin => hin.elim, fun f anchor hin => hin.elim,
      fun f r at_ hin => hin.elim, fun f r hin => hin.elim, fun f x hby => by cases hby⟩
    simp [Store.finding?] at hx
  call a c s b s' hallow hknown hinv h _ := by
    obtain ⟨w, n⟩ := s
    obtain ⟨w', n'⟩ := s'
    have hnotes : n' = Suppressing.seen c w b w' n := h.2
    rw [hnotes]
    exact suppressed_call hallow hknown hinv h.1
  finish a phase s hready _ hinv := hinv.entry phase hready.2
  abort a s _ _ hinv := hinv.entry .reconcile fun x hx => hx.elim
  crash a p s _ _ _ hinv := hinv.entry .startup fun x hx => hx.elim
  env a s s' _ hinv h := by
    obtain ⟨w, n⟩ := s
    obtain ⟨w', n'⟩ := s'
    have hnotes : n' = Suppressing.heard w w' n := h.2
    rw [hnotes]
    have henv : EnvStep w w' := h.1
    cases henv with
    | treeLost =>
      refine hinv.mono rfl (fun _ => id) (fun _ _ => id) hinv.lapsed hinv.filed fun f hby => ?_
      simpa [Suppressing.heard, World.sameStatus] using hby
    | request haccept => exact suppressed_request hinv haccept

/-- A step takes the finding out of its suppression, other than into a fix's hold. -/
def Store.reopened (s s' : Store) (f : Nat) : Bool :=
  s.suppressed f && !s'.suppressed f && decide (s'.statusOf (some f) ≠ some .blocked)

def GitDiff.namesFile : GitDiff → Prop
  | .failed => False
  | .listed lines => ∃ line ∈ lines, (Text.trim line).isEmpty = false

theorem VerdictAnchor.changed_isSome {anchor : VerdictAnchor} {diff : GitDiff} :
    (anchor.changed diff).isSome = true ↔ diff = .failed ∨ diff.namesFile := by
  cases diff with
  | failed => simp [VerdictAnchor.changed]
  | listed lines =>
    simp only [VerdictAnchor.changed, reduceCtorEq, false_or, GitDiff.namesFile]
    split
    · rename_i hempty
      simp only [List.isEmpty_iff, List.filter_eq_nil_iff, List.mem_map] at hempty
      simp only [Option.isSome_none, Bool.false_eq_true, false_iff]
      rintro ⟨line, hline, hfull⟩
      exact hempty _ ⟨line, hline, rfl⟩ (by simpa using hfull)
    · rename_i hfull
      simp only [Option.isSome_some, true_iff]
      by_contra hnone
      refine hfull (List.isEmpty_iff.2 (List.filter_eq_nil_iff.2 fun line hline => ?_))
      obtain ⟨raw, hraw, rfl⟩ := List.mem_map.1 hline
      intro htrim
      exact hnone ⟨raw, hraw, by simpa using htrim⟩

/-- The finding's rejection is a worker's, the latest job's scan has just filed it again, and
comparing its anchored files, in the clone of the job's repo and up to the commit the job is pinned
at, told `tells`. -/
def LapsedBy (tells : GitDiff → Prop) (s : World × Suppressing) (f : Nat) : Prop :=
  s.2.byOperator f = false ∧ ∃ x anchor job at_ diff, s.1.store.finding? f = some x ∧
    x.status = .rejected ∧ x.anchor = some anchor ∧ s.1.store.jobs.getLast? = some job ∧
    job.pinnedSha = some at_ ∧ s.2.filed = some (job.repoId, f) ∧
    s.2.compared = some ⟨job.repoId, anchor, at_, diff⟩ ∧ tells diff

theorem suppressed_iff {s : Store} {f : Nat} : s.suppressed f = true ↔
    ∃ x, s.finding? f = some x ∧ x.status.isSuppressed = true := by
  simp [Store.suppressed, Option.any_eq_true]

theorem not_reopened_self {s : Store} {f : Nat} : s.reopened s f = false := by
  cases h : s.suppressed f <;> simp [Store.reopened, h]

theorem lapsed_of_reopened {β : Type} {c : StoreCall β} {a : Memory} {s : World × Suppressing}
    {s' : Store} {b : β} {f : Nat} (happly : c.apply s.1.store = some (b, s'))
    (hallow : c.allowed a) (hknown : ∀ y ∈ a, y.holds s.1.store) (hinv : Suppressed a s)
    (hreopened : s.1.store.reopened s' f = true) :
    LapsedBy (fun diff => diff = .failed ∨ diff.namesFile) s f := by
  simp only [Store.reopened, Bool.and_eq_true, Bool.not_eq_true', decide_eq_true_eq] at hreopened
  obtain ⟨⟨hsuppressed, hleft⟩, hunblocked⟩ := hreopened
  obtain ⟨x, hx, hstatus⟩ := suppressed_iff.1 hsuppressed
  obtain ⟨x', hx', hchange⟩ := StoreCall.edits happly f x hx
  rcases hchange.status with hsame | hmoves
  · rw [Store.suppressed, hx', Option.any_some, hsame, hstatus] at hleft
    cases hleft
  · rcases reopens_of_moves hallow hknown hx hstatus hmoves with hreopens | ⟨hblocked, -⟩
    · have hmay : a.mayReopen f := by
        cases c with
        | reopenSuppressed g row =>
          obtain rfl := hreopens
          exact hallow
        | _ => exact hreopens.elim
      obtain ⟨r, at_, p, out, hfiled, hlapsed, hlatest, hpinned⟩ := hmay
      obtain ⟨y, anchor, diff, hy, hanchor, hcompared, hchanged⟩ := hinv.lapsed f r at_ hlapsed
      obtain ⟨hlen, ⟨job, hjob, rfl⟩, -⟩ := hknown _ hlatest
      obtain ⟨job', hjob', hsha⟩ := hknown _ hpinned
      cases hjob.symm.trans hjob'
      have hlast : s.1.store.jobs.getLast? = some job := by
        rw [List.getLast?_eq_getElem?, hlen]
        exact hjob
      refine ⟨?_, y, anchor, job, at_, diff, hy, ?_, hanchor, hlast, hsha, hinv.filed f _ hfiled,
        hcompared, VerdictAnchor.changed_isSome.1 hchanged⟩
      · by_contra hby
        have hnone := (hinv.byOperator f y (by simpa using hby) hy).2
        rw [hanchor] at hnone
        cases hnone
      · exact hinv.rejected f y hy (by rw [hanchor]; rfl)
    · exact absurd (by simp [Store.statusOf, hx', hblocked]) hunblocked

theorem not_reopened_request {s s' : Store} {r : Request} {f : Nat} (h : Accepts s r s') :
    s.reopened s' f = false := by
  by_contra hnot
  have hreopened : s.reopened s' f = true := by simpa using hnot
  simp only [Store.reopened, Bool.and_eq_true, Bool.not_eq_true'] at hreopened
  obtain ⟨⟨hsuppressed, hleft⟩, -⟩ := hreopened
  obtain ⟨x, hx, hstatus⟩ := suppressed_iff.1 hsuppressed
  obtain ⟨x', hx', hchange⟩ := h.edits f x hx
  have hsame : x'.status = x.status := by
    refine hchange.status.resolve_right ?_
    cases hx0 : x.status <;> simp_all [FindingStatus.isSuppressed, FindingStatus.operatorMoves,
      FindingStatus.awaitsVerdict]
  rw [Store.suppressed, hx', Option.any_some, hsame, hstatus] at hleft
  cases hleft

/-- Only a rejection is anchored, and a finding is reopened only from a worker's rejection whose
anchored files git lists as changed, or cannot compare, in the clone of the repo whose scan has
just filed it again. -/
theorem suppressions_sound {x y : Config suppressing} (hx : suppressing.Reachable x)
    (hstep : suppressing.Step x y) :
    (∀ f z, x.state.1.store.finding? f = some z → z.anchor.isSome = true →
      z.status = .rejected) ∧
    ∀ f, x.state.1.store.reopened y.state.1.store f = true →
      LapsedBy (fun diff => diff = .failed ∨ diff.namesFile) x.state f := by
  obtain ⟨a, hrest, hknown, hinv⟩ :=
    ((known_invariant.watch _ _ _).and suppressed_invariant).reachable hx
  refine ⟨hinv.rejected, fun f hreopened => ?_⟩
  have hmoved : ∀ {s : Store}, y.state.1.store = s → x.state.1.store.reopened s f = true :=
    fun h => h ▸ hreopened
  have hsame : y.state.1.store ≠ x.state.1.store := by
    intro h
    have hself := hmoved h
    rw [not_reopened_self] at hself
    cases hself
  cases hstep with
  | finish => exact absurd rfl hsame
  | abort => exact absurd rfl hsame
  | crash => exact absurd rfl hsame
  | @env p s s' henv =>
    obtain ⟨w', n'⟩ := s'
    have henv : EnvStep s.1 w' := henv.1
    cases henv with
    | treeLost => exact absurd rfl hsame
    | request haccept =>
      have hself := hmoved rfl
      rw [not_reopened_request haccept] at hself
      cases hself
  | @call β c k s s' b hcall =>
    have hallow : c.allowed a := hrest.1
    have hleaves := hcall.1.leaves
    cases c with
    | ask q => exact absurd (congrArg World.store hleaves) hsame
    | tree c => exact absurd hleaves hsame
    | store c =>
      rcases hleaves with ⟨b', t, rfl, happly, hw⟩ | ⟨-, hw⟩
      · exact lapsed_of_reopened happly hallow hknown.facts hinv
          (hmoved (congrArg World.store hw))
      · exact absurd (congrArg World.store hw) hsame

def suppressingReply (o : Outside) : Machine.Reply Call (World × Suppressing) :=
  o.reply.watch Suppressing.seen

theorem faithful_suppressingReply (o : Outside) : suppressing.Faithful (suppressingReply o) :=
  Machine.Faithful.watch o.faithful_reply

theorem reachable_suppressingRequested {x : Config suppressing} {r : Request} {s : Store → Store}
    (h : suppressing.Reachable x) (hr : Accepts x.state.1.store r (s x.state.1.store)) :
    suppressing.Reachable (requestedBeside Suppressing.heard s x) := by
  have henv : ∀ w w' n, EnvStep w w' → suppressing.env (w, n) (w', Suppressing.heard w w' n) :=
    fun w w' n henv => ⟨henv, rfl⟩
  exact reachable_requestedBeside henv h hr

def recheckRequest (s : Store) : Store := (s.claimInProgress 0 .new .rechecking).1

def recheckedFinding : Config suppressing :=
  requestedBeside Suppressing.heard recheckRequest (play suppressingReply (List.replicate 5 hunting)
    (requestedBeside Suppressing.heard addSampleRepo ⟨suppressing.body suppressing.boot, emptyWorld,
      { compared := none, filed := none, byOperator := fun _ => false }⟩))

theorem reachable_recheckedFinding : suppressing.Reachable recheckedFinding :=
  reachable_suppressingRequested (r := .recheck 0)
    (reachable_play faithful_suppressingReply
      (reachable_suppressingRequested (r := .addRepo ['r'] ['m']) (.start ⟨rfl, rfl⟩) .addRepo))
    .recheck

def isReopening : {β : Type} → Call β → Bool
  | _, .store (.reopenSuppressed _ _) => true
  | _, _ => false

def rejecting : Outside :=
  { verdict := .parsed (some (.invalid ['w'] { files := [['f']], holdsWhile := none })) }

/-- A hunt of new commits files it again, and git answers `diff`. -/
def refiling (diff : GitDiff) : Outside :=
  { hunting with tip := ['n'], diff := diff, stops := isReopening }

def refiled (diff : GitDiff) : Config suppressing :=
  play suppressingReply (List.replicate 4 rejecting ++ List.replicate 4 (refiling diff))
    recheckedFinding

theorem reachable_refiled (diff : GitDiff) : suppressing.Reachable (refiled diff) :=
  reachable_play faithful_suppressingReply reachable_recheckedFinding

def reopensFirst (s : Store) : {β : Type} → Call β → Bool
  | _, .store (.reopenSuppressed f row) => s.reopened (s.reopenSuppressed f row).1 0
  | _, _ => false

theorem step_of_reopensFirst {x : Config suppressing}
    (h : Machine.nextIs (reopensFirst x.state.1.store) x.rest = true) :
    ∃ y, suppressing.Step x y ∧ x.state.1.store.reopened y.state.1.store 0 = true := by
  obtain ⟨rest, w, n⟩ := x
  obtain ⟨β, c, k, rfl, hreopens⟩ := Machine.exists_next h
  cases c with
  | ask q => cases hreopens
  | tree c => cases hreopens
  | store c =>
    cases c with
    | reopenSuppressed f row =>
      have hstep : suppressing.step (.store (.reopenSuppressed f row)) (w, n)
          (routine.answerCall w (.store (.reopenSuppressed f row))).1
          ((routine.answerCall w (.store (.reopenSuppressed f row))).2,
            Suppressing.seen (.store (.reopenSuppressed f row)) w _ _ n) :=
        ⟨routine.callStep _ w, rfl⟩
      exact ⟨_, .call hstep, hreopens⟩
    | _ => cases hreopens

theorem suppressions_sound_refiled :
    LapsedBy (fun diff => diff = .failed ∨ diff.namesFile) (refiled (.listed [['f']])).state 0 := by
  obtain ⟨y, hstep, hreopened⟩ :=
    step_of_reopensFirst (x := refiled (.listed [['f']])) (by decide +kernel)
  exact (suppressions_sound (reachable_refiled _) hstep).2 0 hreopened

/-- A rejection is reopened although no anchored file is known to have changed. -/
theorem suppressions_unsound : ¬ ∀ x y : Config suppressing, suppressing.Reachable x →
    suppressing.Step x y →
    (∀ f z, x.state.1.store.finding? f = some z → z.anchor.isSome = true →
      z.status = .rejected) ∧
    ∀ f, x.state.1.store.reopened y.state.1.store f = true →
      LapsedBy GitDiff.namesFile x.state f := by
  intro h
  obtain ⟨y, hstep, hreopened⟩ :=
    step_of_reopensFirst (x := refiled .failed) (by decide +kernel)
  obtain ⟨-, z, anchor, job, at_, diff, -, -, -, -, -, -, hcompared, hnames⟩ :=
    (h _ _ (reachable_refiled .failed) hstep).2 0 hreopened
  have hfailed : (refiled .failed).state.2.compared.any (fun c => c.diff = .failed) = true := by
    decide +kernel
  rw [hcompared, Option.any_some, decide_eq_true_eq] at hfailed
  subst hfailed
  exact hnames

end Hunter
