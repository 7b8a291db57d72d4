import Hunter.Changes.Requests
import Hunter.Replay
import Hunter.Scheduler.Entries
set_option autoImplicit false

namespace Hunter

/-- The columns every list of findings decodes, as the statements bind them. -/
structure AnalysisColumns where
  severity : Text
  bugClass : Option Text
  confidence : ℚ

def FindingInsert.columns (row : FindingInsert) : AnalysisColumns where
  severity := row.severity.asStr
  bugClass := row.bugClass.map BugClass.asStr
  confidence := row.confidence

structure AnalysisColumns.WellFormed (columns : AnalysisColumns) : Prop where
  severity : (Severity.decode columns.severity).isSome
  bugClass : ∀ t, columns.bugClass = some t → (BugClass.parse t).isSome
  confidence : 0 ≤ columns.confidence ∧ columns.confidence ≤ 1

theorem wellFormed_columns {row : FindingInsert} (h : 0 ≤ row.confidence ∧ row.confidence ≤ 1) :
    row.columns.WellFormed where
  severity := by simp [FindingInsert.columns, Severity.decode_asStr]
  bugClass := by
    intro t ht
    obtain ⟨cls, -, rfl⟩ := Option.map_eq_some_iff.1 ht
    simp [BugClass.parse_asStr]
  confidence := h

def Store.WellFormed (s : Store) : Prop :=
  ∀ f x, s.finding? f = some x → x.report.columns.WellFormed

section
variable (parseF64 : Text → Option Double) (bounded : Json → Prop)

/-- Entries ingested, findings reopened, refreshed and confirmed, from any JSON, confirmations
from `bounded` ones only, among whatever else happens to the database. -/
inductive Written : Store → Prop
  | start {s : Store} : s.WellFormed → Written s
  | ingested {s : Store} {types : EntryTypes} {entry : Json} {type : FindingType}
      {row : FindingInsert} {repoId : Nat} : Written s →
      readEntry parseF64 types entry = some (type, row) →
      Written (s.upsertFinding repoId row type).1
  | reopened {s : Store} {types : EntryTypes} {entry : Json} {type : FindingType}
      {row : FindingInsert} {id : Nat} : Written s →
      readEntry parseF64 types entry = some (type, row) → Written (s.reopenSuppressed id row).1
  | refreshed {s : Store} {types : EntryTypes} {entry : Json} {type : FindingType}
      {row : FindingInsert} {id : Nat} : Written s →
      readEntry parseF64 types entry = some (type, row) → Written (s.refreshDepUpdate id row).1
  | confirmed {s : Store} {verdict : Json} {fields : FindingAnalysisUpdate} {id : Nat} :
      Written s → bounded verdict → confirmedUpdate verdict = some fields →
      Written (s.updateFindingAnalysis id fields)
  | statement {β : Type} {c : StoreCall β} {s s' : Store} {b : β} : Written s →
      c.files = none → (∀ f, ¬ c.rewrites f) → c.apply s = some (b, s') → Written s'
  | request {r : Request} {s s' : Store} : Written s → Accepts s r s' → Written s'

end

variable {parseF64 : Text → Option Double} {s s' : Store}

theorem confidence_of_readEntry {types : EntryTypes} {entry : Json} {type : FindingType}
    {row : FindingInsert} (h : readEntry parseF64 types entry = some (type, row)) :
    0 ≤ row.confidence ∧ row.confidence ≤ 1 := by
  obtain ⟨-, rfl⟩ := readEntry_row h
  exact clampConfidence_mem _

theorem wellFormed_edits {R : Nat → Finding → Finding → Prop} (hs : s.WellFormed)
    (hedits : Store.Edits R s s') (hlen : s'.findings.length = s.findings.length)
    (hR : ∀ f x x', R f x x' → x.report.columns.WellFormed → x'.report.columns.WellFormed) :
    s'.WellFormed := by
  intro f x' hx'
  rcases hedits.back hx' with hnone | ⟨x, hx, hchange⟩
  · have hlt : f < s'.findings.length := by
      simp only [Store.finding?, List.getElem?_eq_some_iff] at hx'
      exact hx'.1
    have hge : s.findings.length ≤ f := by simpa [Store.finding?] using hnone
    omega
  · exact hR f x x' hchange (hs f x hx)

theorem wellFormed_addFinding {y : Finding} (hs : s.WellFormed)
    (hy : y.report.columns.WellFormed) : (s.addFinding y).WellFormed := by
  intro f x hx
  rw [Store.finding?_addFinding] at hx
  split at hx
  · cases hx
    exact hy
  · exact hs f x hx

theorem wellFormed_updateFindingIf {id : Nat} {p : Finding → Bool} {g : Finding → Finding}
    (hs : s.WellFormed) (hg : ∀ x, x.report.columns.WellFormed → (g x).report.columns.WellFormed) :
    (s.updateFindingIf id p g).1.WellFormed := by
  refine wellFormed_edits (R := fun _ x x' => x' = x ∨ x' = g x) hs ?_
    Store.length_updateFindingIf ?_
  · exact Store.edits_updateFindingIf (fun _ _ => Or.inl rfl) fun _ _ => Or.inr rfl
  · rintro f x x' (rfl | rfl) hx
    · exact hx
    · exact hg x hx

def Bounded (verdict : Json) : Prop :=
  ∀ v q, readVerdict verdict = some v → v.updatedConfidence = some q → 0 ≤ q ∧ q ≤ 1

theorem confidence_of_confirmed {verdict : Json} {fields : FindingAnalysisUpdate} {q : ℚ}
    (hbounded : Bounded verdict) (h : confirmedUpdate verdict = some fields)
    (hq : fields.confidence = some q) : 0 ≤ q ∧ q ≤ 1 := by
  obtain ⟨v, hv, rfl⟩ := Option.map_eq_some_iff.1 h
  exact hbounded v q (Option.filter_eq_some_iff.1 hv).1 hq

/-- While every confirmation is within bounds, every row ever stored is well-formed. -/
theorem wellFormed_written (h : Written parseF64 Bounded s) : s.WellFormed := by
  induction h with
  | start hs => exact hs
  | ingested _ hentry ih =>
    unfold Store.upsertFinding
    split
    · exact ih
    · exact wellFormed_addFinding ih (wellFormed_columns (confidence_of_readEntry hentry))
  | reopened _ hentry ih | refreshed _ hentry ih =>
    have hrow := confidence_of_readEntry hentry
    exact wellFormed_updateFindingIf ih fun _ _ => wellFormed_columns hrow
  | @confirmed s verdict fields id _ hbounded hfields ih =>
    refine wellFormed_edits (R := fun _ x x' => x' = x ∨
      x'.report = fields.apply x.report) ih ?_ (by simp [Store.updateFindingAnalysis]) ?_
    · exact Store.edits_modifyFinding (fun _ _ => Or.inl rfl) fun _ _ => Or.inr rfl
    · rintro f x x' (rfl | hreport) hx
      · exact hx
      · rw [hreport]
        refine wellFormed_columns ?_
        cases hq : fields.confidence with
        | none => simpa [FindingAnalysisUpdate.apply, hq, FindingInsert.columns] using hx.confidence
        | some q =>
          simpa [FindingAnalysisUpdate.apply, hq] using
            confidence_of_confirmed hbounded hfields hq
  | statement _ hfiles hrewrites happly ih =>
    intro f x' hx'
    rcases StoreCall.finding_cases happly hx' with ⟨x, hx, hchange⟩ | ⟨-, hfiled⟩
    · rw [hchange.report.resolve_right (hrewrites f)]
      exact ih f x hx
    · rw [hfiles] at hfiled
      cases hfiled
  | request _ haccept ih =>
    intro f x' hx'
    obtain ⟨x, hx, hchange⟩ := haccept.finding hx'
    rw [hchange.report]
    exact ih f x hx

def percentVerdict : Json :=
  .object [("verdict".toList, .string "confirmed".toList), ("updated_confidence".toList, .int 85)]

def recheckedStore : Store where
  repos := [some sampleRepo]
  findings := [{ type := .bug, repoId := 0, report := sampleInsert, status := .rechecking }]
  jobs := []

theorem wellFormed_recheckedStore : recheckedStore.WellFormed := by
  intro f x hx
  match f with
  | 0 =>
    cases hx
    exact wellFormed_columns ⟨zero_le_one, le_refl 1⟩
  | f + 1 => cases hx

/-- The worker's 85 is stored as it came. -/
theorem percent_confidence_stored :
    ∃ s, Written (fun _ => none) (fun _ => True) s ∧ ¬ s.WellFormed := by
  have hfields : confirmedUpdate percentVerdict = some ⟨none, none, some 85, none⟩ := rfl
  have hstored : Written (fun _ => none) (fun _ => True)
      (recheckedStore.updateFindingAnalysis 0 ⟨none, none, some 85, none⟩) :=
    .confirmed (.start wellFormed_recheckedStore) trivial hfields
  refine ⟨_, hstored, fun h => ?_⟩
  have hle : (85 : ℚ) ≤ 1 := (h 0 _ rfl).confidence.2
  norm_num at hle

def halfVerdict : Json :=
  .object [("verdict".toList, .string "confirmed".toList),
    ("updated_confidence".toList, .float (1 / 2))]

theorem bounded_halfVerdict : Bounded halfVerdict := by
  intro v q hv hq
  have hread : readVerdict halfVerdict =
      some ⟨some "confirmed".toList, none, none, none, some (1 / 2), none, none, []⟩ := rfl
  cases hread.symm.trans hv
  cases hq
  norm_num

theorem half_confidence_wellFormed :
    (recheckedStore.updateFindingAnalysis 0 ⟨none, none, some (1 / 2), none⟩).WellFormed := by
  have hfields : confirmedUpdate halfVerdict = some ⟨none, none, some (1 / 2), none⟩ := rfl
  have hstored : Written (fun _ => none) Bounded
      (recheckedStore.updateFindingAnalysis 0 ⟨none, none, some (1 / 2), none⟩) :=
    .confirmed (.start wellFormed_recheckedStore) bounded_halfVerdict hfields
  exact wellFormed_written hstored

end Hunter
