import Hunter.Changes.Findings
import Hunter.Replay
set_option autoImplicit false

namespace Hunter
open Effect

/-! What a dependency scan changes of a finding whose fix is under way. -/

namespace Store

/-- A fix of the finding runs, or is suspended and continued by nothing. -/
def liveFix (s : Store) (f : Nat) : Bool :=
  (rows s.jobs).any fun row =>
    row.val.kind = .finding .fix && row.val.findingId = some f && s.live row.id row.val

end Store

namespace StoreCall

/-- The statements that settle a scan's findings with the ones on record. -/
def settlesScan : {β : Type} → StoreCall β → Bool
  | _, .refreshDepUpdate _ _ | _, .supersedeUnproposedDepUpdates _ _ _
  | _, .handOverQueuedDepUpdates _ _ => true
  | _, _ => false

/-- Whether a scan's statement finds nothing to change of finding `f`. -/
def spares (s : Store) (f : Nat) (x : Finding) : {β : Type} → StoreCall β → Bool
  | _, .refreshDepUpdate g row =>
    g ≠ f || !x.refreshable || x.status ≠ .superseded && row.refresh x.report = x.report
  | _, .supersedeUnproposedDepUpdates repoId proposed unchecked =>
    !Store.unproposed repoId proposed unchecked x
  | _, .handOverQueuedDepUpdates repoId moves =>
    (s.handOverPairs repoId moves).all fun pair => pair.1 ≠ f && pair.2 ≠ f
  | _, _ => true

end StoreCall

def moveStatuses (st : Nat → Option FindingStatus) (pair : Nat × Nat) :
    Nat → Option FindingStatus := fun g =>
  if st pair.1 = some .queued then
    if g = pair.1 then some .superseded
    else if g = pair.2 ∧ (st g = some .new ∨ st g = some .queued) then some .queued
    else st g
  else st g

section
variable {st : Nat → Option FindingStatus} {pairs : List (Nat × Nat)} {q f : Nat}

theorem superseded_stays (h : st f = some .superseded) :
    pairs.foldl moveStatuses st f = some .superseded := by
  induction pairs generalizing st with
  | nil => exact h
  | cons pair rest ih =>
    rw [List.foldl_cons]
    refine ih ?_
    unfold moveStatuses
    split
    · split
      · rfl
      · simp [h]
    · exact h

theorem source_superseded (hf : st f = some .queued) (hmem : f ∈ pairs.map Prod.fst) :
    pairs.foldl moveStatuses st f = some .superseded := by
  induction pairs generalizing st with
  | nil => cases hmem
  | cons pair rest ih =>
    rw [List.foldl_cons]
    by_cases hhead : f = pair.1
    · refine superseded_stays ?_
      rw [hhead] at hf ⊢
      simp [moveStatuses, hf]
    · have hrest : f ∈ rest.map Prod.fst := by simpa [hhead] using hmem
      refine ih ?_ hrest
      unfold moveStatuses
      split
      · simp [hf]
      · exact hf

theorem queued_stays (hf : st f = some .queued) (hmem : f ∉ pairs.map Prod.fst) :
    pairs.foldl moveStatuses st f = some .queued := by
  induction pairs generalizing st with
  | nil => exact hf
  | cons pair rest ih =>
    simp only [List.map_cons, List.mem_cons, not_or] at hmem
    rw [List.foldl_cons]
    refine ih ?_ hmem.2
    unfold moveStatuses
    split
    · simp [hmem.1, hf]
    · exact hf

theorem heir_queued (hf : st f = some .new ∨ st f = some .queued) (hq : st q = some .queued)
    (hmem : (q, f) ∈ pairs) (hnodup : (pairs.map Prod.fst).Nodup)
    (hsource : f ∉ pairs.map Prod.fst) : pairs.foldl moveStatuses st f = some .queued := by
  induction pairs generalizing st with
  | nil => cases hmem
  | cons pair rest ih =>
    simp only [List.map_cons, List.mem_cons, not_or] at hsource
    simp only [List.map_cons, List.nodup_cons] at hnodup
    rw [List.foldl_cons]
    rcases List.mem_cons.1 hmem with hhead | hrest
    · subst hhead
      refine queued_stays ?_ hsource.2
      simp [moveStatuses, hq, hsource.1, hf]
    · have hne : q ≠ pair.1 := by
        rintro rfl
        exact hnodup.1 (List.mem_map.2 ⟨_, hrest, rfl⟩)
      refine ih ?_ ?_ hrest hnodup.2 hsource.2
      · unfold moveStatuses
        split
        · rw [if_neg hsource.1]
          split
          · exact Or.inr rfl
          · exact hf
        · exact hf
      · unfold moveStatuses
        split
        · simp [hq]
        · exact hq

end

/-- An open finding that is proposed for another one's move. -/
structure IsHeir (repoId : Nat) (moves : List ProposedMove) (q p : Finding) : Prop where
  repoId : p.repoId = repoId
  type : p.type = .depUpdate
  new : p.status = .new
  proposed : ∃ m ∈ moves, Store.sameMove m q = true ∧ m.fingerprint = p.report.fingerprint

namespace Store
variable {s : Store} {repoId : Nat} {moves : List ProposedMove}

def statuses (s : Store) (f : Nat) : Option FindingStatus := (s.finding? f).map Finding.status

theorem any_status_iff {f : Nat} {status : FindingStatus} :
    ((s.finding? f).any fun x => x.status = status) = true ↔ s.statuses f = some status := by
  cases hx : s.finding? f <;> simp [statuses, hx]

theorem statuses_update {t : Store} {i : Nat} {p : Finding → Bool} {u : Finding → Finding}
    {status : FindingStatus} (ht : (s.updateFindingIf i p u).1 = t)
    (hu : ∀ x, (u x).status = status) (g : Nat) :
    t.statuses g = if g = i ∧ (s.finding? i).any p = true then some status else s.statuses g := by
  subst ht
  unfold updateFindingIf
  split
  · rename_i hp
    obtain ⟨x, hx, -⟩ := (Option.any_eq_true _ _).1 hp
    simp only [statuses, finding?_modifyFinding, hp, and_true]
    by_cases hg : i = g
    · subst hg
      simp [hx, hu]
    · have hg' : g ≠ i := fun h => hg h.symm
      simp [hg, hg']
  · rename_i hp
    simp [hp]

theorem updated_updateFindingIf {i : Nat} {p : Finding → Bool} {u : Finding → Finding} :
    (s.updateFindingIf i p u).2 = (s.finding? i).any p := by
  unfold updateFindingIf
  split <;> simp_all

theorem statuses_handOver {acc : Store × Nat} {pair : Nat × Nat} :
    (Store.handOver acc pair).1.statuses = moveStatuses acc.1.statuses pair := by
  funext g
  unfold handOver moveStatuses
  dsimp only
  rw [updated_updateFindingIf]
  by_cases hq : acc.1.statuses pair.1 = some .queued
  · rw [if_pos (any_status_iff.2 hq), if_pos hq]
    generalize hsource : (acc.1.updateFindingIf pair.1 (fun f => f.status = .queued) fun f =>
      { f with
        status := .superseded
        verdictReason := some (handOverReason pair.2) }).1 = t
    have hfirst : ∀ g, t.statuses g = if g = pair.1 then some .superseded
        else acc.1.statuses g := fun g => by
      rw [statuses_update hsource (fun _ => rfl) g]
      simp only [any_status_iff.2 hq, and_true]
    generalize htarget : (t.updateFindingIf pair.2 _ _).1 = t'
    have hopen : ((t.finding? pair.2).any fun f => f.status = .new || f.status = .queued) = true ↔
        t.statuses pair.2 = some .new ∨ t.statuses pair.2 = some .queued := by
      cases hx : t.finding? pair.2 <;> simp [statuses, hx]
    rw [statuses_update htarget (fun _ => rfl) g]
    simp only [hopen, hfirst]
    by_cases hg : g = pair.1
    · by_cases ht : pair.2 = pair.1
      · simp [hg, ht]
      · simp only [hg, if_true]
        rw [if_neg fun h => ht h.1.symm]
    · by_cases ht : g = pair.2
      · subst ht
        simp [hg]
      · simp [hg, ht]
  · rw [if_neg (mt any_status_iff.1 hq), if_neg hq]

theorem statuses_foldl_handOver {pairs : List (Nat × Nat)} {acc : Store × Nat} :
    (pairs.foldl Store.handOver acc).1.statuses = pairs.foldl moveStatuses acc.1.statuses := by
  induction pairs generalizing acc with
  | nil => rfl
  | cons pair rest ih => rw [List.foldl_cons, List.foldl_cons, ih, statuses_handOver]

theorem finding?_foldl_handOver {pairs : List (Nat × Nat)} {acc : Store × Nat} {f : Nat}
    (h : ∀ pair ∈ pairs, pair.1 ≠ f ∧ pair.2 ≠ f) :
    (pairs.foldl Store.handOver acc).1.finding? f = acc.1.finding? f := by
  induction pairs generalizing acc with
  | nil => rfl
  | cons pair rest ih =>
    obtain ⟨hsource, htarget⟩ := h pair (by simp)
    rw [List.foldl_cons, ih fun p hp => h p (by simp [hp])]
    unfold handOver
    dsimp only
    split
    · rw [finding?_updateFindingIf, if_neg htarget, finding?_updateFindingIf, if_neg hsource]
    · rfl

theorem mem_heirs {q : Finding} {target : Nat} :
    target ∈ ((rows s.findings).filter fun p =>
      p.val.repoId = repoId && p.val.type = .depUpdate && p.val.status = .new
        && moves.any fun m =>
          sameMove m q && m.fingerprint = p.val.report.fingerprint).map Row.id ↔
      ∃ p, s.finding? target = some p ∧ IsHeir repoId moves q p := by
  simp only [List.mem_map, List.mem_filter, mem_rows, Bool.and_eq_true, decide_eq_true_eq,
    List.any_eq_true]
  constructor
  · rintro ⟨row, ⟨hrow, ⟨⟨hrepo, htype⟩, hnew⟩, m, hm, hmove⟩, rfl⟩
    exact ⟨row.val, hrow, hrepo, htype, hnew, m, hm, hmove⟩
  · rintro ⟨p, hp, hrepo, htype, hnew, m, hm, hmove⟩
    exact ⟨⟨target, p⟩, ⟨hp, ⟨⟨hrepo, htype⟩, hnew⟩, m, hm, hmove⟩, rfl⟩

theorem heir_eq_none_iff {q : Finding} : s.heir repoId moves q = none ↔
    ∀ target p, s.finding? target = some p → ¬ IsHeir repoId moves q p := by
  rw [heir, List.min?_eq_none_iff, List.eq_nil_iff_forall_not_mem]
  simp only [mem_heirs, not_exists, not_and]

theorem mem_handOverPairs_iff {q target : Nat} : (q, target) ∈ s.handOverPairs repoId moves ↔
    ∃ f, s.finding? q = some f ∧ queuedUnproposed repoId moves f = true ∧
      s.heir repoId moves f = some target := by
  simp only [handOverPairs, List.mem_filterMap, mem_rows]
  constructor
  · rintro ⟨row, hrow, hpair⟩
    split at hpair
    · rename_i hqueued
      obtain ⟨heir, hheir, heq⟩ := Option.map_eq_some_iff.1 hpair
      cases heq
      exact ⟨row.val, hrow, hqueued, hheir⟩
    · cases hpair
  · rintro ⟨f, hf, hqueued, hheir⟩
    exact ⟨⟨q, f⟩, hf, by simp [hqueued, hheir]⟩

theorem heir_isHeir {q : Finding} {target : Nat} (h : s.heir repoId moves q = some target) :
    ∃ p, s.finding? target = some p ∧ IsHeir repoId moves q p :=
  mem_heirs.1 (List.min?_mem h)

theorem mem_handOverPairs {q t : Nat} (h : (q, t) ∈ s.handOverPairs repoId moves) :
    s.statuses q = some .queued ∧ s.statuses t = some .new := by
  obtain ⟨f, hf, hqueued, hheir⟩ := mem_handOverPairs_iff.1 h
  obtain ⟨p, hp, hisHeir⟩ := heir_isHeir hheir
  simp only [queuedUnproposed, Bool.and_eq_true, decide_eq_true_eq] at hqueued
  simp [statuses, hf, hp, hqueued.1.2, hisHeir.new]

theorem sources_sublist {α : Type} {l : List (Row α)} {g : Row α → Option (Nat × Nat)}
    (hg : ∀ row pair, g row = some pair → pair.1 = row.id) :
    ((l.filterMap g).map Prod.fst).Sublist (l.map Row.id) := by
  induction l with
  | nil => exact .slnil
  | cons row rest ih =>
    cases hrow : g row with
    | none => simpa [List.filterMap_cons, hrow] using ih.cons _
    | some pair => simpa [List.filterMap_cons, hrow, hg row pair hrow] using ih

theorem nodup_handOverPairs : ((s.handOverPairs repoId moves).map Prod.fst).Nodup := by
  refine nodup_rows.sublist (sources_sublist fun row pair h => ?_)
  split at h
  · obtain ⟨target, -, rfl⟩ := Option.map_eq_some_iff.1 h
    rfl
  · cases h

/-- The hand-over leaves a finding as it is exactly where no pair names it. -/
theorem handOver_spares_iff {f : Nat} {x : Finding} (hx : s.finding? f = some x) :
    (s.handOverQueuedDepUpdates repoId moves).1.finding? f = some x ↔
      (StoreCall.handOverQueuedDepUpdates repoId moves).spares s f x = true := by
  simp only [StoreCall.spares, List.all_eq_true, Bool.and_eq_true, decide_eq_true_eq]
  constructor
  · intro hkept pair hmem
    obtain ⟨q, t⟩ := pair
    have hstatus :
        (s.handOverPairs repoId moves).foldl moveStatuses s.statuses f = s.statuses f := by
      rw [← @statuses_foldl_handOver _ (s, 0), statuses]
      rw [handOverQueuedDepUpdates] at hkept
      rw [hkept, statuses, hx]
    obtain ⟨hq, ht⟩ := mem_handOverPairs hmem
    constructor
    · rintro rfl
      rw [source_superseded hq (List.mem_map.2 ⟨_, hmem, rfl⟩), hq] at hstatus
      cases hstatus
    · rintro rfl
      have hsource : t ∉ (s.handOverPairs repoId moves).map Prod.fst := by
        intro h
        obtain ⟨⟨q', t'⟩, hmem', rfl⟩ := List.mem_map.1 h
        cases (mem_handOverPairs hmem').1.symm.trans ht
      rw [heir_queued (Or.inl ht) hq hmem nodup_handOverPairs hsource, ht] at hstatus
      cases hstatus
  · intro h
    rw [handOverQueuedDepUpdates, finding?_foldl_handOver h]
    exact hx

end Store

theorem Finding.refreshDep_eq_iff {row : FindingInsert} {x : Finding} :
    x.refreshDep row = x ↔ x.status ≠ .superseded ∧ row.refresh x.report = x.report := by
  constructor
  · intro h
    have hreport : row.refresh x.report = x.report := congrArg Finding.report h
    refine ⟨fun hsuper => ?_, hreport⟩
    have hstatus := congrArg Finding.status h
    simp [Finding.refreshDep, hsuper] at hstatus
  · rintro ⟨hsuper, hreport⟩
    simp [Finding.refreshDep, hsuper, hreport]

/-- A scan's statement leaves a finding as it is exactly where it finds nothing to change. -/
theorem scan_spares_iff {β : Type} {c : StoreCall β} {s s' : Store} {b : β} {f : Nat} {x : Finding}
    (hscan : c.settlesScan = true) (h : c.apply s = some (b, s')) (hx : s.finding? f = some x) :
    s'.finding? f = some x ↔ c.spares s f x = true := by
  cases c with
  | refreshDepUpdate g row =>
    cases h
    by_cases hg : g = f
    · subst hg
      simp only [Store.refreshDepUpdate, Store.updateFindingIf, hx, Option.any_some]
      split
      · rename_i hupdate
        rw [Store.finding?_modifyFinding, if_pos rfl, hx, Option.map_some, Option.some.injEq,
          Finding.refreshDep_eq_iff]
        simp only [Bool.and_eq_true] at hupdate
        simp [StoreCall.spares, hupdate.1]
      · rename_i hkeep
        simp only [StoreCall.spares, hx, true_iff]
        by_cases href : x.refreshable = true
        · simp [href] at hkeep ⊢
          tauto
        · simp [href]
    · simp [StoreCall.spares, hg, Store.refreshDepUpdate, Store.updateFindingIf]
      split <;> simp [hx, hg]
  | supersedeUnproposedDepUpdates repoId proposed unchecked =>
    cases h
    have hrow : (s.supersedeUnproposedDepUpdates repoId proposed unchecked).1.finding? f =
        some (if Store.unproposed repoId proposed unchecked x then
          { x with status := .superseded, verdictReason := some depUnproposedReason } else x) := by
      change (s.findings.map _)[f]? = _
      rw [List.getElem?_map, show s.findings[f]? = some x from hx]
      rfl
    rw [hrow, StoreCall.spares]
    cases hproposed : Store.unproposed repoId proposed unchecked x with
    | false => simp
    | true =>
      have hnew : x.status = .new := by
        simp only [Store.unproposed, Bool.and_eq_true, decide_eq_true_eq] at hproposed
        exact hproposed.1.1.2
      simp only [if_true, Option.some.injEq, Bool.not_true, Bool.false_eq_true, iff_false]
      intro h
      have hstatus := congrArg Finding.status h
      rw [hnew] at hstatus
      cases hstatus
  | handOverQueuedDepUpdates repoId moves =>
    cases h
    exact Store.handOver_spares_iff hx
  | _ => cases hscan

/-- A scan's statement changes no dep_update finding whose fix is under way exactly where it finds
nothing to change of one. -/
theorem depScan_sparesFixes_iff {β : Type} {c : StoreCall β} {s s' : Store} {b : β}
    (hscan : c.settlesScan = true) (h : c.apply s = some (b, s')) :
    (∀ f x, s.finding? f = some x → x.type = .depUpdate → s.liveFix f = true →
      s'.finding? f = some x) ↔
    ∀ f x, s.finding? f = some x → x.type = .depUpdate → s.liveFix f = true →
      c.spares s f x = true := by
  constructor
  · intro hkept f x hx htype hlive
    exact (scan_spares_iff hscan h hx).1 (hkept f x hx htype hlive)
  · intro hspares f x hx htype hlive
    exact (scan_spares_iff hscan h hx).2 (hspares f x hx htype hlive)

def queuedDepUpdate : Config daemon :=
  requested queueVerdict (playDaemon (List.replicate 5 scanning) booted)

theorem reachable_queuedDepUpdate : daemon.Reachable queuedDepUpdate :=
  reachable_requested (r := .verdict 0 .queued none) (reachable_playDaemon reachable_booted)
    (.verdict rfl rfl (by decide) (by decide))

def pausedDepFix : Config daemon :=
  playDaemon (List.replicate 4 { run := cappedRun, committed := false }) queuedDepUpdate

def reworded : StoreCall Bool := .refreshDepUpdate 0 { sampleInsert with summary := ['b'] }

def unchanged : StoreCall Bool := .refreshDepUpdate 0 sampleInsert

theorem depScan_sparesFixes_unchanged :
    (∀ f x, pausedDepFix.state.store.finding? f = some x → x.type = .depUpdate →
      pausedDepFix.state.store.liveFix f = true →
      (pausedDepFix.state.store.refreshDepUpdate 0 sampleInsert).1.finding? f = some x) ↔
    ∀ f x, pausedDepFix.state.store.finding? f = some x → x.type = .depUpdate →
      pausedDepFix.state.store.liveFix f = true →
      unchanged.spares pausedDepFix.state.store f x = true :=
  depScan_sparesFixes_iff (c := unchanged) rfl rfl

/-- A scan rewords a queued finding whose fix is suspended. -/
theorem depScan_rewritesPausedFix : ¬ ∀ (x : Config daemon) (β : Type) (c : StoreCall β) (b : β)
    (s' : Store), daemon.Reachable x → c.settlesScan = true →
    c.apply x.state.store = some (b, s') →
    ∀ f y, x.state.store.finding? f = some y → y.type = .depUpdate →
      x.state.store.liveFix f = true → s'.finding? f = some y := by
  intro h
  have hpaused : (pausedDepFix.state.store.finding? 0).any (fun y => y.type = .depUpdate &&
      pausedDepFix.state.store.liveFix 0 && !reworded.spares pausedDepFix.state.store 0 y) =
        true := by
    decide +kernel
  obtain ⟨y, hy, hpaused⟩ := (Option.any_eq_true _ _).1 hpaused
  simp only [Bool.and_eq_true, decide_eq_true_eq, Bool.not_eq_true'] at hpaused
  have hreach : daemon.Reachable pausedDepFix := reachable_playDaemon reachable_queuedDepUpdate
  have hkept := h pausedDepFix Bool reworded _ _ hreach rfl rfl 0 y hy hpaused.1.1 hpaused.1.2
  have hchanged := hpaused.2
  rw [(scan_spares_iff (c := reworded) rfl rfl hy).1 hkept] at hchanged
  cases hchanged

end Hunter
