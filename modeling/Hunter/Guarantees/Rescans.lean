import Hunter.Guarantees.IngestCounts
import Hunter.Guarantees.Settlements
set_option autoImplicit false

namespace Hunter
open Effect

/-! A dependency scan whose answer is taken up twice. -/

namespace FindingInsert

theorem refresh_refresh (row row' old : FindingInsert) :
    row'.refresh (row.refresh old) = row'.refresh old := rfl

end FindingInsert

namespace Finding

def visit (row : FindingInsert) (f : Finding) : Finding :=
  if f.refreshable then f.refreshDep row else f

/-- A row that `row` would not change. -/
def CurrentWith (row : FindingInsert) (f : Finding) : Prop :=
  f.refreshable = true → f.status ≠ .superseded ∧ row.refresh f.report = f.report

variable {row row' : FindingInsert} {f : Finding}

theorem visit_of_current (h : f.CurrentWith row) : f.visit row = f := by
  unfold visit
  split
  · rename_i hrefreshable
    obtain ⟨hstatus, hreport⟩ := h hrefreshable
    simp [refreshDep, hstatus, hreport]
  · rfl

theorem refreshable_refreshDep (row : FindingInsert) (h : f.refreshable = true) :
    (f.refreshDep row).refreshable = true ∧ (f.refreshDep row).status ≠ .superseded := by
  simp only [refreshable, Bool.and_eq_true, Bool.or_eq_true, decide_eq_true_eq] at h
  obtain ⟨htype, (hnew | hqueued) | ⟨hsuperseded, -⟩⟩ := h
  · simp [refreshDep, refreshable, htype, hnew]
  · simp [refreshDep, refreshable, htype, hqueued]
  · simp [refreshDep, refreshable, htype, hsuperseded]

theorem visit_current : (f.visit row).CurrentWith row := by
  unfold visit
  split
  · rename_i hrefreshable
    exact fun _ => ⟨(refreshable_refreshDep row hrefreshable).2, rfl⟩
  · rename_i hnot
    exact fun h => absurd h hnot

theorem visit_visit : (f.visit row).visit row' = f.visit row' := by
  unfold visit
  by_cases hrefreshable : f.refreshable = true
  · obtain ⟨hrefreshable', hstatus⟩ := refreshable_refreshDep row hrefreshable
    simp only [hrefreshable, hrefreshable', if_true]
    by_cases hsuperseded : f.status = .superseded
    · simp [refreshDep, hsuperseded, FindingInsert.refresh_refresh]
    · simp [refreshDep, hsuperseded, FindingInsert.refresh_refresh]
  · simp [hrefreshable]

end Finding

namespace Store
variable {s t : Store} {repoId : Nat} {i : Nat} {f : Finding}

def latest (entries : List FindingInsert) (fingerprint : Text) : Option FindingInsert :=
  entries.reverse.find? fun row => row.fingerprint = fingerprint

theorem latest_append (entries : List FindingInsert) (row : FindingInsert) (fingerprint : Text) :
    latest (entries ++ [row]) fingerprint =
      if row.fingerprint = fingerprint then some row else latest entries fingerprint := by
  by_cases h : row.fingerprint = fingerprint <;> simp [latest, h]

theorem latest_fingerprint {entries : List FindingInsert} {fingerprint : Text}
    {row : FindingInsert} (h : latest entries fingerprint = some row) :
    row ∈ entries ∧ row.fingerprint = fingerprint :=
  ⟨by simpa using List.mem_of_find?_eq_some h, by simpa using List.find?_some h⟩

theorem latest_isSome {entries : List FindingInsert} {row : FindingInsert} (h : row ∈ entries) :
    ∃ row', latest entries row.fingerprint = some row' := by
  refine Option.isSome_iff_exists.1 (List.find?_isSome.2 ⟨row, by simpa using h, by simp⟩)

theorem visit_eq (row : FindingInsert) (f : Finding) :
    (if f.refreshable && (f.status = .superseded || row.refresh f.report ≠ f.report) then
      f.refreshDep row else f) = f.visit row := by
  cases hchanged : (f.status = .superseded || row.refresh f.report ≠ f.report : Bool) with
  | true =>
    rw [Bool.and_true]
    rfl
  | false =>
    have hcurrent : f.CurrentWith row := fun _ => by simpa using hchanged
    rw [Finding.visit_of_current hcurrent, Bool.and_false]
    rfl

theorem finding?_refreshDepUpdate {row : FindingInsert} {n : Nat} :
    (s.refreshDepUpdate i row).1.finding? n =
      if i = n then (s.finding? n).map (Finding.visit row) else s.finding? n := by
  rw [refreshDepUpdate, finding?_updateFindingIf]
  simp only [visit_eq]

/-- Every reported update has a row, as its last report left it. -/
def Current (entries : List FindingInsert) (s : Store) : Prop :=
  ∀ fingerprint row, latest entries fingerprint = some row →
    ∃ i f, s.lead (.depUpdate, fingerprint) = some i ∧ s.finding? i = some f ∧ f.CurrentWith row

def never (_ : Store) (_ : Nat) : Bool := false

theorem current_fileRow (repoId : Nat) {entries : List FindingInsert} {acc : Store × IngestResult}
    (h : Current entries acc.1) (row : FindingInsert) :
    Current (entries ++ [row]) (fileRow never repoId .depUpdate row acc).1 := by
  intro fingerprint row' hlatest
  rw [latest_append] at hlatest
  unfold fileRow
  by_cases hown : row.fingerprint = fingerprint
  · rw [if_pos hown] at hlatest
    cases hlatest
    subst hown
    cases hlead : acc.1.lead (.depUpdate, row.fingerprint) with
    | none =>
      refine ⟨acc.1.findings.length, _, lead_addFinding hlead rfl,
        (finding?_addFinding _ _ _).trans (if_pos rfl), fun _ => ⟨?_, rfl⟩⟩
      simp
    | some i =>
      obtain ⟨f, hf, -⟩ := lead_some hlead
      refine ⟨i, f.visit row, lead_of_prefix continues_refreshDepUpdate.keys hlead, ?_,
        Finding.visit_current⟩
      change (acc.1.refreshDepUpdate i row).1.finding? i = _
      rw [finding?_refreshDepUpdate, if_pos rfl, hf, Option.map_some]
  · rw [if_neg hown] at hlatest
    obtain ⟨i, f, hlead, hf, hcurrent⟩ := h fingerprint row' hlatest
    cases hlead' : acc.1.lead (.depUpdate, row.fingerprint) with
    | none =>
      refine ⟨i, f, lead_of_prefix (continues_addFinding _).keys hlead, ?_, hcurrent⟩
      rw [finding?_addFinding, if_neg]
      · exact hf
      · rintro rfl
        simp [finding?] at hf
    | some j =>
      refine ⟨i, f, lead_of_prefix continues_refreshDepUpdate.keys hlead, ?_, hcurrent⟩
      change (acc.1.refreshDepUpdate j row).1.finding? i = _
      rw [finding?_refreshDepUpdate, if_neg]
      · exact hf
      · rintro rfl
        obtain ⟨g, hg, hgkey⟩ := lead_some hlead
        obtain ⟨g', hg', hgkey'⟩ := lead_some hlead'
        obtain rfl : g = g' := Option.some.inj (hg.symm.trans hg')
        exact hown (congrArg Prod.snd (hgkey'.symm.trans hgkey))

def updates (entries : List ScanEntry) : List FindingInsert := (validEntries entries).map Prod.snd

theorem updates_cons_some (type : FindingType) (row : FindingInsert) (rest : List ScanEntry) :
    updates (some (type, row) :: rest) = row :: updates rest := rfl

theorem current_fileAll {entries : List ScanEntry}
    (htypes : ∀ e ∈ validEntries entries, e.1 = .depUpdate) {done : List FindingInsert}
    {acc : Store × IngestResult} (h : Current done acc.1) :
    Current (done ++ updates entries) (fileAll never repoId entries acc).1 := by
  induction entries generalizing done acc with
  | nil => simpa [updates, validEntries, fileAll] using h
  | cons entry rest ih =>
    cases entry with
    | none => exact @ih htypes done (acc.1, acc.2.countInvalid) h
    | some entry =>
      obtain ⟨type, row⟩ := entry
      obtain rfl : type = .depUpdate := htypes (type, row) (by simp [validEntries])
      have hrest := ih (fun e he => htypes e (by simp [validEntries] at he ⊢; exact Or.inr he))
        (current_fileRow repoId h row)
      simpa [updates_cons_some, fileAll, fileEntry] using hrest

def revisited (s : Store) (entries : List FindingInsert) (n : Nat) (f : Finding) : Finding :=
  if s.lead f.key = some n ∧ f.type = .depUpdate then
    match latest entries f.report.fingerprint with
    | some row => f.visit row
    | none => f
  else f

structure Revisits (s : Store) (entries : List FindingInsert) (acc : Store × IngestResult) :
    Prop where
  keys : acc.1.keys = s.keys
  rows : ∀ n, acc.1.finding? n = (s.finding? n).map (s.revisited entries n)
  inserted : acc.2.inserted = 0

theorem revisits_start : Revisits s [] (s, {}) where
  keys := rfl
  rows n := by
    have hsame : s.revisited [] n = id := by
      funext f
      simp [revisited, latest]
    rw [hsame, Option.map_id]
    rfl
  inserted := rfl

theorem Revisits.fileRow (repoId : Nat) {entries : List FindingInsert} {acc : Store × IngestResult}
    (h : Revisits s entries acc) {row : FindingInsert}
    (hlead : s.lead (.depUpdate, row.fingerprint) = some i) :
    Revisits s (entries ++ [row]) (fileRow never repoId .depUpdate row acc) := by
  have hlead' : acc.1.lead (.depUpdate, row.fingerprint) = some i := by
    rw [lead, h.keys]
    exact hlead
  have heq : Store.fileRow never repoId .depUpdate row acc = ((acc.1.refreshDepUpdate i row).1,
      if (acc.1.refreshDepUpdate i row).2 then acc.2.countDuplicate.countRefreshed
      else acc.2.countDuplicate) := by
    rw [Store.fileRow, hlead']
    rfl
  rw [heq]
  refine ⟨keys_refreshDepUpdate.trans h.keys, fun n => ?_, ?_⟩
  · rw [finding?_refreshDepUpdate, h.rows]
    obtain ⟨g, hg, hgkey⟩ := lead_some hlead
    by_cases hin : i = n
    · subst hin
      have htype : g.type = .depUpdate := congrArg Prod.fst hgkey
      have hfingerprint : row.fingerprint = g.report.fingerprint :=
        (congrArg Prod.snd hgkey).symm
      have hfirst : s.lead g.key = some i ∧ g.type = .depUpdate := ⟨by rw [hgkey, hlead], htype⟩
      rw [if_pos rfl, hg, Option.map_some, Option.map_some, Option.map_some]
      simp only [revisited, if_pos hfirst, latest_append, if_pos hfingerprint]
      cases latest entries g.report.fingerprint with
      | none => rfl
      | some row' => exact congrArg some Finding.visit_visit
    · rw [if_neg hin]
      cases hf : s.finding? n with
      | none => rfl
      | some f =>
        simp only [Option.map_some, revisited]
        split
        · rename_i hfirst
          have hother : row.fingerprint ≠ f.report.fingerprint := by
            intro heq
            have hkey : f.key = (.depUpdate, row.fingerprint) := Prod.ext hfirst.2 heq.symm
            rw [hkey, hlead] at hfirst
            exact hin (Option.some.inj hfirst.1)
          rw [latest_append, if_neg hother]
        · rfl
  · split <;> exact h.inserted

theorem Revisits.fileAll (repoId : Nat) {entries : List ScanEntry}
    (htypes : ∀ e ∈ validEntries entries, e.1 = .depUpdate)
    (hleads : ∀ row ∈ updates entries, ∃ i, s.lead (.depUpdate, row.fingerprint) = some i)
    {done : List FindingInsert} {acc : Store × IngestResult} (h : Revisits s done acc) :
    Revisits s (done ++ updates entries) (fileAll never repoId entries acc) := by
  induction entries generalizing done acc with
  | nil => simpa [updates, validEntries, Store.fileAll] using h
  | cons entry rest ih =>
    cases entry with
    | none => exact @ih htypes hleads done (acc.1, acc.2.countInvalid) ⟨h.keys, h.rows, h.inserted⟩
    | some entry =>
      obtain ⟨type, row⟩ := entry
      obtain rfl : type = .depUpdate := htypes (type, row) (by simp [validEntries])
      obtain ⟨i, hlead⟩ := hleads row (by simp [updates_cons_some])
      have hrest := ih (fun e he => htypes e (by simp [validEntries] at he ⊢; exact Or.inr he))
        (fun row' hrow' => hleads row' (by simp [updates_cons_some, hrow']))
        (h.fileRow repoId hlead)
      simpa [updates_cons_some, Store.fileAll, fileEntry] using hrest

theorem fileAll_current {entries : List ScanEntry}
    (htypes : ∀ e ∈ validEntries entries, e.1 = .depUpdate) (h : Current (updates entries) s) :
    (fileAll never repoId entries (s, {})).1.findings = s.findings ∧
      (fileAll never repoId entries (s, {})).2.inserted = 0 := by
  have hleads : ∀ row ∈ updates entries, ∃ i, s.lead (.depUpdate, row.fingerprint) = some i := by
    intro row hrow
    obtain ⟨row', hlatest⟩ := latest_isSome hrow
    obtain ⟨i, -, hlead, -⟩ := h _ _ hlatest
    exact ⟨i, hlead⟩
  have hend := revisits_start.fileAll repoId htypes hleads
  refine ⟨List.ext_getElem? fun n => ?_, hend.inserted⟩
  have hrow := hend.rows n
  rw [List.nil_append] at hrow
  refine hrow.trans ?_
  cases hf : s.finding? n with
  | none => exact hf.symm
  | some f =>
    rw [Option.map_some]
    refine Eq.trans (congrArg some ?_) hf.symm
    unfold revisited
    split
    · rename_i hfirst
      split
      · rename_i row hlatest
        obtain ⟨i, g, hlead, hg, hcurrent⟩ := h _ _ hlatest
        have hkey : f.key = (.depUpdate, f.report.fingerprint) := Prod.ext hfirst.2 rfl
        rw [hkey, hlead] at hfirst
        obtain rfl := Option.some.inj hfirst.1
        obtain rfl : g = f := Option.some.inj (hg.symm.trans hf)
        exact Finding.visit_of_current hcurrent
      · rfl
    · rfl

theorem keys_of_rows {u : Nat → Finding → Finding}
    (hrows : ∀ n, t.finding? n = (s.finding? n).map (u n))
    (hu : ∀ n f, (u n f).key = f.key) : t.keys = s.keys := by
  refine List.ext_getElem? fun n => ?_
  have hrow := hrows n
  rw [keys, keys, List.getElem?_map, List.getElem?_map]
  change (t.finding? n).map Finding.key = (s.finding? n).map Finding.key
  rw [hrow, Option.map_map]
  cases s.finding? n with
  | none => rfl
  | some f => exact congrArg some (hu n f)

theorem Current.of_rows {entries : List FindingInsert} {u : Nat → Finding → Finding}
    (h : Current entries s) (hrows : ∀ n, t.finding? n = (s.finding? n).map (u n))
    (hu : ∀ n f, (u n f).key = f.key)
    (hcurrent : ∀ n f row, s.finding? n = some f → row ∈ entries →
      row.fingerprint = f.report.fingerprint → f.CurrentWith row → (u n f).CurrentWith row) :
    Current entries t := by
  intro fingerprint row hlatest
  obtain ⟨i, f, hlead, hf, hrow⟩ := h fingerprint row hlatest
  obtain ⟨hmem, hfingerprint⟩ := latest_fingerprint hlatest
  obtain ⟨g, hg, hkey⟩ := lead_some hlead
  obtain rfl : g = f := Option.some.inj (hg.symm.trans hf)
  refine ⟨i, u i g, ?_, ?_, ?_⟩
  · rw [lead, keys_of_rows hrows hu]
    exact hlead
  · rw [hrows, hf, Option.map_some]
  · exact hcurrent i g row hf hmem (hfingerprint.trans (congrArg Prod.snd hkey).symm) hrow

theorem current_supersedeUnproposed {entries : List FindingInsert} {proposed unchecked : List Text}
    (h : Current entries s) (hproposed : ∀ row ∈ entries, row.fingerprint ∈ proposed) :
    Current entries (s.supersedeUnproposedDepUpdates repoId proposed unchecked).1 := by
  refine h.of_rows (fun n => finding?_supersedeUnproposed) (fun n f => ?_)
    fun n f row _ hmem hfingerprint hrow => ?_
  · split <;> rfl
  · rw [if_neg]
    · exact hrow
    · have hmem' : f.report.fingerprint ∈ proposed := hfingerprint ▸ hproposed row hmem
      simp [unproposed, hmem']

theorem handOverReason_ne (target : Nat) : handOverReason target ≠ depUnproposedReason := by
  intro h
  have hreason : depUnproposedReason.head? = some 'n' := rfl
  have hhead : (handOverReason target).head? = some 'r' := rfl
  rw [h, hreason] at hhead
  cases hhead

theorem handedOver_cases {moves : List ProposedMove} (k : Nat) (f : Finding) :
    (s.handedOver (s.handOverPairs repoId moves) k f).report = f.report ∧
    (s.handedOver (s.handOverPairs repoId moves) k f).type = f.type ∧
    ((∃ target, (k, target) ∈ s.handOverPairs repoId moves ∧
        (s.handedOver (s.handOverPairs repoId moves) k f).status = .superseded ∧
        (s.handedOver (s.handOverPairs repoId moves) k f).verdictReason =
          some (handOverReason target)) ∨
      (∃ source, (source, k) ∈ s.handOverPairs repoId moves ∧
        (s.handedOver (s.handOverPairs repoId moves) k f).status = .queued) ∨
      (∀ pair ∈ s.handOverPairs repoId moves, pair.1 ≠ k) ∧
        s.handedOver (s.handOverPairs repoId moves) k f = f) := by
  unfold handedOver
  split
  · rename_i pair hpair
    obtain rfl : pair.1 = k := by simpa using List.find?_some hpair
    exact ⟨rfl, rfl, Or.inl ⟨pair.2, List.mem_of_find?_eq_some hpair, rfl, rfl⟩⟩
  · rename_i hnone
    rw [List.find?_eq_none] at hnone
    split
    · rename_i hany
      obtain ⟨pair, hpair, hk⟩ := List.any_eq_true.1 hany
      obtain rfl : pair.2 = k := by simpa using hk
      exact ⟨rfl, rfl, Or.inr (Or.inl ⟨pair.1, hpair, rfl⟩)⟩
    · exact ⟨rfl, rfl, Or.inr (Or.inr ⟨fun pair hpair => by simpa using hnone pair hpair, rfl⟩)⟩

theorem current_handOver {entries : List FindingInsert} {moves : List ProposedMove}
    (h : Current entries s) :
    Current entries (s.handOverQueuedDepUpdates repoId moves).1 := by
  have hpairs : s.HandsOver (s.handOverPairs repoId moves) := handsOver_handOverPairs
  refine h.of_rows finding?_handOverQueuedDepUpdates (fun n f => ?_)
    fun n f row hf _ _ hrow => ?_
  · obtain ⟨hreport, htype, -⟩ := @handedOver_cases s repoId moves n f
    simp [Finding.key, hreport, htype]
  · obtain ⟨hreport, htype, hcase⟩ := @handedOver_cases s repoId moves n f
    rcases hcase with ⟨target, -, hstatus, hreason⟩ | ⟨source, hmem, hstatus⟩ | ⟨-, hsame⟩
    · intro hrefreshable
      simp [Finding.refreshable, hstatus, hreason, handOverReason_ne] at hrefreshable
    · intro hrefreshable
      obtain ⟨f', hf', hnew⟩ := statuses_eq_some (hpairs.target _ hmem)
      obtain rfl : f = f' := Option.some.inj (hf.symm.trans hf')
      have hdep : f.type = .depUpdate := by
        simp [Finding.refreshable, hstatus, htype] at hrefreshable
        exact hrefreshable
      rw [hreport]
      exact ⟨by simp [hstatus], (hrow (by simp [Finding.refreshable, hdep, hnew])).2⟩
    · rw [hsame]
      exact hrow

/-- Nothing is left to retire or to hand over. -/
structure SettledFor (repoId : Nat) (scan : DepScan) (s : Store) : Prop where
  proposed : ∀ n f, s.finding? n = some f →
    unproposed repoId scan.proposed scan.unchecked f = false
  queued : s.handOverPairs repoId scan.moves = []

theorem handOverPairs_congr {moves : List ProposedMove} (h : t.findings = s.findings) :
    t.handOverPairs repoId moves = s.handOverPairs repoId moves := by
  simp only [handOverPairs, heir, h]

def settle (repoId : Nat) (scan : DepScan) (s : Store) : Store :=
  ((s.supersedeUnproposedDepUpdates repoId scan.proposed scan.unchecked).1.handOverQueuedDepUpdates
    repoId scan.moves).1

theorem settledFor_settle (s : Store) (repoId : Nat) (scan : DepScan) :
    SettledFor repoId scan (s.settle repoId scan) := by
  unfold settle
  generalize hretired : (s.supersedeUnproposedDepUpdates repoId scan.proposed scan.unchecked).1 = t
  have hpairs : t.HandsOver (t.handOverPairs repoId scan.moves) := handsOver_handOverPairs
  constructor
  · intro n g hg
    rw [finding?_handOverQueuedDepUpdates] at hg
    obtain ⟨f, hf, rfl⟩ := Option.map_eq_some_iff.1 hg
    obtain ⟨-, -, hcase⟩ := @handedOver_cases t repoId scan.moves n f
    rcases hcase with ⟨target, -, hstatus, -⟩ | ⟨source, -, hstatus⟩ | ⟨-, hsame⟩
    · simp [unproposed, hstatus]
    · simp [unproposed, hstatus]
    · rw [hsame]
      rw [← hretired, finding?_supersedeUnproposed] at hf
      obtain ⟨f0, -, rfl⟩ := Option.map_eq_some_iff.1 hf
      split
      · simp [unproposed]
      · rename_i hkept
        simpa using hkept
  · rw [List.eq_nil_iff_forall_not_mem]
    rintro ⟨q, target⟩ hmem
    obtain ⟨g, hg, hqueued, hheir⟩ := mem_handOverPairs_iff.1 hmem
    obtain ⟨p', hp', hisHeir⟩ := heir_isHeir hheir
    rw [finding?_handOverQueuedDepUpdates] at hg hp'
    obtain ⟨f, hf, rfl⟩ := Option.map_eq_some_iff.1 hg
    obtain ⟨p, hp, rfl⟩ := Option.map_eq_some_iff.1 hp'
    -- the heir is open, so the hand-over has not touched it
    have hp_same : t.handedOver (t.handOverPairs repoId scan.moves) target p = p := by
      obtain ⟨-, -, hcase⟩ := @handedOver_cases t repoId scan.moves target p
      rcases hcase with ⟨_, -, hstatus, -⟩ | ⟨_, -, hstatus⟩ | ⟨-, hsame⟩
      · rw [hisHeir.new] at hstatus
        cases hstatus
      · rw [hisHeir.new] at hstatus
        cases hstatus
      · exact hsame
    rw [hp_same] at hisHeir
    obtain ⟨hreport, -, hcase⟩ := @handedOver_cases t repoId scan.moves q f
    rcases hcase with ⟨_, -, hstatus, -⟩ | ⟨source, hpair, -⟩ | ⟨hunpaired, hsame⟩
    · simp [queuedUnproposed, hstatus] at hqueued
    · -- a finding queued by the hand-over is proposed
      obtain ⟨x, -, -, hxheir⟩ := mem_handOverPairs_iff.1 hpair
      obtain ⟨f', hf', hxisHeir⟩ := heir_isHeir hxheir
      obtain rfl : f = f' := Option.some.inj (hf.symm.trans hf')
      obtain ⟨m, hm, -, hfingerprint⟩ := hxisHeir.proposed
      simp only [queuedUnproposed, Bool.and_eq_true, Bool.not_eq_true', hreport] at hqueued
      have hnone := List.any_eq_false.1 hqueued.2 m hm
      simp [hfingerprint] at hnone
    · -- one left queued had no heir
      rw [hsame] at hqueued hisHeir
      cases hfound : t.heir repoId scan.moves f with
      | none => exact heir_eq_none_iff.1 hfound target p hp hisHeir
      | some other =>
        exact hunpaired (q, other) (mem_handOverPairs_iff.2 ⟨f, hf, hqueued, hfound⟩) rfl

theorem SettledFor.supersede {scan : DepScan} (h : SettledFor repoId scan s)
    (hst : t.findings = s.findings) :
    (t.supersedeUnproposedDepUpdates repoId scan.proposed scan.unchecked).2 = 0 ∧
      (t.supersedeUnproposedDepUpdates repoId scan.proposed scan.unchecked).1.findings =
        s.findings := by
  have hnone : ∀ f ∈ s.findings, unproposed repoId scan.proposed scan.unchecked f = false := by
    intro f hf
    obtain ⟨n, hn⟩ := List.mem_iff_getElem?.1 hf
    exact h.proposed n f hn
  constructor
  · rw [supersedeUnproposedDepUpdates, hst]
    exact List.countP_eq_zero.2 fun f hf => by simp [hnone f hf]
  · simp only [supersedeUnproposedDepUpdates, hst]
    exact (List.map_congr_left fun f hf => by simp [hnone f hf]).trans (List.map_id _)

theorem SettledFor.handOver {scan : DepScan} (h : SettledFor repoId scan s)
    (hst : t.findings = s.findings) :
    t.handOverQueuedDepUpdates repoId scan.moves = (t, 0) := by
  rw [handOverQueuedDepUpdates, handOverPairs_congr hst, h.queued]
  rfl

end Store

section
variable {parseF64 : Text → Option Double} {scan : RenovateScan}

theorem readEntry_candidate {c : DepCandidate} {e : FindingType × FindingInsert}
    (h : readEntry parseF64 (.fixed .depUpdate) c.entry = some e) :
    e.1 = .depUpdate ∧ e.2.fingerprint = c.fingerprint := by
  obtain ⟨type, row⟩ := e
  obtain ⟨-, rfl⟩ := readEntry_row h
  refine ⟨?_, rfl⟩
  simp only [readEntry, EntryTypes.resolve, DepCandidate.entry] at h
  split at h
  · cases h
  · cases h
    rfl

theorem mem_validEntries_depScan {e : FindingType × FindingInsert}
    (h : e ∈ validEntries (scan.depScan parseF64).entries) :
    e.1 = .depUpdate ∧ e.2.fingerprint ∈ (scan.depScan parseF64).proposed := by
  simp only [validEntries, RenovateScan.depScan, List.mem_filterMap, List.mem_map] at h
  obtain ⟨_, ⟨c, hc, rfl⟩, he⟩ := h
  obtain ⟨htype, hfingerprint⟩ := readEntry_candidate he
  exact ⟨htype, hfingerprint ▸ List.mem_map_of_mem hc⟩

end

/-- What a run of ingest and settlement computes. -/
theorem EndsAlone.ingestAndSettle {repoId : Nat} {scan : DepScan} {w w' : World}
    {r : IngestResult × Nat × Nat} (h : EndsAlone (ingestAndSettle repoId scan) w r w') :
    ∃ filed retired : Store,
      (filed, r.1) = Store.fileAll Store.never repoId scan.entries (w.store, {}) ∧
      (retired, r.2.1) =
        filed.supersedeUnproposedDepUpdates repoId scan.proposed scan.unchecked ∧
      (w'.store, r.2.2) = retired.handOverQueuedDepUpdates repoId scan.moves := by
  have hstep := relies_lands fun _ _ _ => .failed
  have hnever : reopening (fun _ _ _ => .failed) repoId none false = Store.never := rfl
  rcases Runs.of_bind h with ⟨counts, v, hingest, hrest⟩ | ⟨_, he, -⟩
  · obtain ⟨_, hcounts, hall⟩ := hstep.countEntries hingest
    cases hcounts
    obtain ⟨n, retired, v1, hretire, hv1, hrest⟩ := hstep.sql hrest
    obtain ⟨m, handed, v2, hhand, hv2, hdone⟩ := hstep.sql hrest
    cases hdone
    refine ⟨v.store, retired, ?_, ?_, ?_⟩
    · rw [hall, hnever]
    · cases hretire
      rfl
    · rw [hv1] at hhand
      cases hhand
      rw [hv2]
  · cases he

theorem Store.invalid_fileAll {lapses : Store → Nat → Bool} {repoId : Nat}
    (entries : List ScanEntry) (acc : Store × IngestResult) :
    (Store.fileAll lapses repoId entries acc).2.invalid =
      acc.2.invalid + entries.countP Option.isNone := by
  induction entries generalizing acc with
  | nil => rfl
  | cons entry rest ih =>
    refine (ih (Store.fileEntry lapses repoId acc entry)).trans ?_
    match entry with
    | none => simp [Store.fileEntry, IngestResult.countInvalid, Nat.add_assoc, Nat.add_comm]
    | some (type, row) =>
      have hinvalid : (Store.fileEntry lapses repoId acc (some (type, row))).2.invalid =
          acc.2.invalid := by
        simp only [Store.fileEntry, Store.fileRow]
        cases acc.1.lead (type, row.fingerprint) with
        | none => rfl
        | some i =>
          dsimp only
          split
          · rfl
          · split
            · split <;> rfl
            · rfl
      simp [hinvalid]

theorem EndsAlone.runRenovateScan {repoId : Nat} {scan : DepScan} {w w' : World}
    {a : Option JobState} (h : EndsAlone (runRenovateScan repoId scan) w a w') :
    w'.store =
      if scan.entries.countP Option.isNone = 0 then
        Store.settle repoId scan
          (Store.fileAll Store.never repoId scan.entries (w.store, {})).1
      else (Store.fileAll Store.never repoId scan.entries (w.store, {})).1 := by
  have hstep := relies_lands fun _ _ _ => .failed
  obtain ⟨_, v, hwrite, hrest⟩ := endsAlone_bind.1 h
  obtain ⟨answer, hanswer⟩ := endsAlone_ask.1 hwrite
  obtain rfl : v = w := by
    cases answer with
    | ok _ => exact (endsAlone_done.1 hanswer).2
    | error _ => cases hanswer
  unfold ingestFindings at hrest
  rw [ingest_eq_countIngest] at hrest
  obtain ⟨counts, v1, hingest, hrest⟩ := endsAlone_bind.1 hrest
  obtain ⟨_, hcounts, hall⟩ := hstep.countEntries hingest
  cases hcounts
  have hfiled : v1.store = (Store.fileAll Store.never repoId scan.entries (v.store, {})).1 :=
    congrArg Prod.fst hall
  have hcounts : counts.invalid = scan.entries.countP Option.isNone := by
    rw [show counts = _ from congrArg Prod.snd hall, Store.invalid_fileAll]
    exact Nat.zero_add _
  obtain ⟨_, v2, hsettle, hdone⟩ := endsAlone_bind.1 hrest
  cases hdone
  rw [← hcounts, ← hfiled]
  by_cases hvalid : counts.invalid = 0
  · rw [if_pos hvalid]
    simp only [onlyIf, hvalid, decide_true, if_true] at hsettle
    obtain ⟨_, retired, v3, hretire, hv3, hrest⟩ := hstep.sql hsettle
    obtain ⟨_, handed, v4, hhand, hv4, hdone⟩ := hstep.sql hrest
    cases hdone
    cases hretire
    rw [hv3] at hhand
    cases hhand
    exact hv4
  · rw [if_neg hvalid]
    simp only [onlyIf, hvalid, decide_false] at hsettle
    cases hsettle
    rfl

section
variable (parseF64 : Text → Option Double) (scan : RenovateScan) (repoId : Nat)

theorem Store.current_ingest (s : Store) :
    Store.Current (Store.updates (scan.depScan parseF64).entries)
      (Store.fileAll Store.never repoId (scan.depScan parseF64).entries (s, {})).1 := by
  have hstart : Store.Current [] s := by
    intro _ _ hlatest
    cases hlatest
  exact @Store.current_fileAll repoId _ (fun e he => (mem_validEntries_depScan he).1) [] (s, {})
    hstart

variable {parseF64 scan}

theorem Store.Current.settle {s : Store}
    (h : Store.Current (Store.updates (scan.depScan parseF64).entries) s) :
    Store.Current (Store.updates (scan.depScan parseF64).entries)
      (s.settle repoId (scan.depScan parseF64)) := by
  refine Store.current_handOver (Store.current_supersedeUnproposed h fun row hrow => ?_)
  obtain ⟨e, he, rfl⟩ := List.mem_map.1 hrow
  exact (mem_validEntries_depScan he).2

theorem Store.Current.again {s : Store}
    (h : Store.Current (Store.updates (scan.depScan parseF64).entries) s) :
    (Store.fileAll Store.never repoId (scan.depScan parseF64).entries (s, {})).1.findings =
        s.findings ∧
      (Store.fileAll Store.never repoId (scan.depScan parseF64).entries (s, {})).2.inserted = 0 :=
  Store.fileAll_current (fun _ he => (mem_validEntries_depScan he).1) h

end

/-- Taking up a scan's answer again leaves the findings as the first time did. -/
theorem rescan_changesNothing (parseF64 : Text → Option Double) (scan : RenovateScan)
    (repoId : Nat) {w w1 w2 : World} {first again : IngestResult × Nat × Nat}
    (h : EndsAlone (ingestAndSettle repoId (scan.depScan parseF64)) w first w1)
    (h' : EndsAlone (ingestAndSettle repoId (scan.depScan parseF64)) w1 again w2) :
    w2.store.findings = w1.store.findings ∧ again.1.inserted = 0 ∧ again.2 = (0, 0) := by
  obtain ⟨filed, retired, hfiled, hretired, hhanded⟩ := h.ingestAndSettle
  obtain ⟨filed', retired', hfiled', hretired', hhanded'⟩ := h'.ingestAndSettle
  have hw1 : w1.store = filed.settle repoId (scan.depScan parseF64) := by
    rw [Store.settle, ← hretired]
    exact congrArg Prod.fst hhanded
  have hsettled : Store.SettledFor repoId (scan.depScan parseF64) w1.store :=
    hw1 ▸ Store.settledFor_settle filed repoId (scan.depScan parseF64)
  have hcurrent : Store.Current (Store.updates (scan.depScan parseF64).entries) w1.store := by
    have hall := Store.current_ingest parseF64 scan repoId w.store
    rw [← hfiled] at hall
    rw [hw1]
    exact hall.settle repoId
  obtain ⟨hsame, hinserted⟩ := hcurrent.again repoId
  rw [← hfiled'] at hsame hinserted
  obtain ⟨hnone, hkept⟩ := hsettled.supersede hsame
  rw [← hretired'] at hnone hkept
  rw [hsettled.handOver hkept] at hhanded'
  have hnone' : again.2.2 = 0 := congrArg Prod.snd hhanded'
  refine ⟨?_, hinserted, Prod.ext hnone hnone'⟩
  rw [show w2.store = retired' from congrArg Prod.fst hhanded']
  exact hkept

/-- So does the job, which settles only a scan without invalid entries. -/
theorem runRenovateScan_again (parseF64 : Text → Option Double) (scan : RenovateScan)
    (repoId : Nat) {w w1 w2 : World} {a a' : Option JobState}
    (h : EndsAlone (runRenovateScan repoId (scan.depScan parseF64)) w a w1)
    (h' : EndsAlone (runRenovateScan repoId (scan.depScan parseF64)) w1 a' w2) :
    w2.store.findings = w1.store.findings := by
  have hfirst := h.runRenovateScan
  have hsecond := h'.runRenovateScan
  have hall := Store.current_ingest parseF64 scan repoId w.store
  by_cases hvalid : (scan.depScan parseF64).entries.countP Option.isNone = 0
  · rw [if_pos hvalid] at hfirst hsecond
    have hsettled : Store.SettledFor repoId (scan.depScan parseF64) w1.store :=
      hfirst ▸ Store.settledFor_settle _ repoId (scan.depScan parseF64)
    have hcurrent : Store.Current (Store.updates (scan.depScan parseF64).entries) w1.store :=
      hfirst ▸ hall.settle repoId
    obtain ⟨-, hkept⟩ := hsettled.supersede (hcurrent.again repoId).1
    rw [hsecond, Store.settle, hsettled.handOver hkept]
    exact hkept
  · rw [if_neg hvalid] at hfirst hsecond
    have hcurrent : Store.Current (Store.updates (scan.depScan parseF64).entries) w1.store :=
      hfirst ▸ hall
    rw [hsecond]
    exact (hcurrent.again repoId).1

section
variable {β : Type} {w : World}

theorem endsAlone_sqlResult {c : StoreCall β} {b : β} {s : Store}
    (h : c.apply w.store = some (b, s)) (hkeyed : c.keyed w.store = true) :
    EndsAlone (sqlResult c) w (.ok b) { w with store := s } :=
  endsAlone_store.2 ⟨hkeyed, b, s, h, .done⟩

theorem endsAlone_sql {c : StoreCall β} {b : β} {s : Store} (h : c.apply w.store = some (b, s))
    (hkeyed : c.keyed w.store = true) : EndsAlone (sql c) w b { w with store := s } :=
  endsAlone_store.2 ⟨hkeyed, b, s, h, .done⟩

variable {repoId : Nat}

theorem countRefresh_ends (fid : Nat) (type : FindingType) (row : FindingInsert)
    (result : IngestResult) : ∃ r w', EndsAlone (countRefresh fid type row result) w r w' ∧
      w'.store.liveRepo repoId = w.store.liveRepo repoId := by
  unfold countRefresh
  by_cases htype : type = .depUpdate
  · simp only [if_pos htype]
    have hrefresh : StoreCall.apply w.store (.refreshDepUpdate fid row) = some (_, _) := rfl
    have hkept := StoreCall.liveRepo_eq hrefresh repoId
    cases hrefreshed : (w.store.refreshDepUpdate fid row).2 with
    | true =>
      exact ⟨_, _, (endsAlone_sqlResult hrefresh rfl).bind (by rw [hrefreshed]; exact .done),
        hkept⟩
    | false =>
      exact ⟨_, _, (endsAlone_sqlResult hrefresh rfl).bind (by rw [hrefreshed]; exact .done),
        hkept⟩
  · simp only [if_neg htype]
    exact ⟨_, _, .done, rfl⟩

theorem countRow_ends (type : FindingType) (row : FindingInsert) (result : IngestResult)
    (hlive : w.store.liveRepo repoId = true) :
    ∃ r w', EndsAlone (countRow repoId none false type row result) w r w' ∧
      w'.store.liveRepo repoId = true := by
  have happly : StoreCall.apply w.store (.upsertFinding repoId row type) = some (_, _) := rfl
  have hkeyed : (StoreCall.upsertFinding repoId row type).keyed w.store = true := by
    obtain ⟨repo, hrepo, -⟩ := (Option.any_eq_true _ _).1 hlive
    simp [hrepo]
  have hupsert := endsAlone_sqlResult happly hkeyed
  have hkept := (StoreCall.liveRepo_eq happly repoId).trans hlive
  match hfiled : (w.store.upsertFinding repoId row type).2, hupsert with
  | (_, true), hupsert => exact ⟨_, _, hupsert.bind .done, hkept⟩
  | (fid, false), hupsert =>
    obtain ⟨r, w', hrefresh, hsame⟩ := countRefresh_ends fid type row result.countDuplicate
    exact ⟨r, w', hupsert.bind hrefresh, hsame.trans hkept⟩

theorem countEntries_ends (entries : List ScanEntry) (result : IngestResult)
    (hlive : w.store.liveRepo repoId = true) :
    ∃ r w', EndsAlone (countEntries repoId none false entries result) w r w' := by
  induction entries generalizing w result with
  | nil => exact ⟨_, _, .done⟩
  | cons entry rest ih =>
    match entry with
    | none => exact ih result.countInvalid hlive
    | some (type, row) =>
      obtain ⟨counted, v, hrow, hkept⟩ := countRow_ends type row result hlive
      obtain ⟨r, w', hrest⟩ := ih counted hkept
      exact ⟨r, w', hrow.bind hrest⟩

theorem ingestAndSettle_ends (scan : DepScan) (hlive : w.store.liveRepo repoId = true) :
    ∃ r w', EndsAlone (ingestAndSettle repoId scan) w r w' := by
  obtain ⟨counts, v, hingest⟩ := countEntries_ends scan.entries {} hlive
  exact ⟨_, _, hingest.bind ((endsAlone_sql rfl rfl).bind ((endsAlone_sql rfl rfl).bind .done))⟩

end

def groupScan : RenovateScan := (parseRenovateOutput groupReport "repo".toList).1

def scanGroup : Act (IngestResult × Nat × Nat) := ingestAndSettle 0 (groupScan.depScan noDoubles)

/-- A group is filed once. -/
theorem rescan_changesNothing_group :
    ∃ w1 w2 again, EndsAlone scanGroup repoWorld ({ inserted := 1 }, 0, 0) w1 ∧
      EndsAlone scanGroup w1 again w2 ∧ w2.store.findings = w1.store.findings ∧
      again.1.inserted = 0 ∧ again.2 = (0, 0) := by
  have hfirst : EndsAlone scanGroup repoWorld ({ inserted := 1 }, 0, 0)
      (Machine.replay alone scanGroup repoWorld).2 := endsAlone_replay rfl
  have hlive : (Machine.replay alone scanGroup repoWorld).2.store.liveRepo 0 = true := by
    decide +kernel
  obtain ⟨again, w2, hagain⟩ := ingestAndSettle_ends (groupScan.depScan noDoubles) hlive
  exact ⟨_, _, _, hfirst, hagain, rescan_changesNothing noDoubles groupScan 0 hfirst hagain⟩

end Hunter
