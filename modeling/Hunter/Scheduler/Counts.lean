import Hunter.Scheduler.Scans
set_option autoImplicit false

namespace Hunter
open Effect

structure IngestResult where
  inserted : Nat := 0
  duplicates : Nat := 0
  /-- Of the duplicates, the open dependency updates brought up to date. -/
  refreshed : Nat := 0
  /-- Of the duplicates, the findings whose verdict had lapsed. -/
  reopened : Nat := 0
  invalid : Nat := 0
  deriving DecidableEq

namespace IngestResult

def countInserted (r : IngestResult) : IngestResult := { r with inserted := r.inserted + 1 }
def countDuplicate (r : IngestResult) : IngestResult := { r with duplicates := r.duplicates + 1 }
def countRefreshed (r : IngestResult) : IngestResult := { r with refreshed := r.refreshed + 1 }
def countReopened (r : IngestResult) : IngestResult := { r with reopened := r.reopened + 1 }
def countInvalid (r : IngestResult) : IngestResult := { r with invalid := r.invalid + 1 }

end IngestResult

def reopens (repoId fid : Nat) (job : Option Nat) (reopen : Bool) (row : FindingInsert) :
    Act Bool :=
  if reopen then do
    match ← (reopenIfChanged repoId fid job row).attempt with
    | .ok reopened => pure reopened
    | .error _ => pure false
  else pure false

def countRefresh (fid : Nat) (type : FindingType) (row : FindingInsert) (result : IngestResult) :
    Act IngestResult := do
  if type = .depUpdate then
    match ← sqlResult (.refreshDepUpdate fid row) with
    | .ok true => pure result.countRefreshed
    | .ok false => pure result
    | .error _ => pure result.countInvalid
  else pure result

def countRow (repoId : Nat) (job : Option Nat) (reopen : Bool) (type : FindingType)
    (row : FindingInsert) (result : IngestResult) : Act IngestResult := do
  match ← sqlResult (.upsertFinding repoId row type) with
  | .error _ => pure result.countInvalid
  | .ok (_, true) => pure result.countInserted
  | .ok (fid, false) =>
    let reopened ← reopens repoId fid job reopen row
    if reopened then pure result.countDuplicate.countReopened
    else countRefresh fid type row result.countDuplicate

def countEntries (repoId : Nat) (job : Option Nat) (reopen : Bool) :
    List ScanEntry → IngestResult → Act IngestResult
  | [], result => pure result
  | none :: rest, result => countEntries repoId job reopen rest result.countInvalid
  | some (type, row) :: rest, result => do
    let result ← countRow repoId job reopen type row result
    countEntries repoId job reopen rest result

/-- `ingest`; a file without entries counts as one invalid one. -/
def countIngest (repoId : Nat) (job : Option Nat) (reopen : Bool) :
    FindingsFile → Act IngestResult
  | .missing | .unreadable => pure { invalid := 1 }
  | .entries list => countEntries repoId job reopen list {}

section
variable {α : Type} {repoId : Nat} {job : Option Nat} {reopen : Bool}

theorem countRow_invalid (type : FindingType) (row : FindingInsert) (result : IngestResult)
    (k : Nat → Act α) :
    (countRow repoId job reopen type row result >>= fun r => k r.invalid) =
      ingestRow repoId job reopen type row >>= fun filed =>
        k (if filed then result.invalid else result.invalid + 1) := by
  refine congrArg (Prog.call _) (funext fun answer => ?_)
  match answer with
  | .error _ => rfl
  | .ok (_, true) => rfl
  | .ok (fid, false) =>
    change (reopens repoId fid job reopen row >>= fun reopened => _) >>= _ =
      (reopens repoId fid job reopen row >>= fun reopened => _) >>= _
    rw [Prog.bind_assoc, Prog.bind_assoc]
    congr 1
    funext reopened
    cases reopened with
    | true => rfl
    | false =>
      by_cases htype : type = .depUpdate
      · subst htype
        refine congrArg (Prog.call _) (funext fun answer => ?_)
        match answer with
        | .error _ | .ok true | .ok false => rfl
      · simp only [countRefresh, htype]
        rfl

theorem countEntries_invalid (entries : List ScanEntry) (result : IngestResult)
    (k : Nat → Act α) :
    (countEntries repoId job reopen entries result >>= fun r => k r.invalid) =
      ingestEntries repoId job reopen entries >>= fun n => k (result.invalid + n) := by
  induction entries generalizing result k with
  | nil => rfl
  | cons entry rest ih =>
    match entry with
    | none =>
      rw [ingestEntries, Prog.bind_assoc]
      exact (ih result.countInvalid k).trans (by
        congr 1
        funext n
        exact congrArg k (Nat.add_right_comm result.invalid 1 n))
    | some (type, row) =>
      rw [countEntries, ingestEntries, Prog.bind_assoc, Prog.bind_assoc]
      simp only [ih]
      rw [countRow_invalid type row result fun invalid =>
        ingestEntries repoId job reopen rest >>= fun n => k (invalid + n)]
      congr 1
      funext filed
      rw [Prog.bind_assoc]
      congr 1
      funext n
      cases filed with
      | true => rfl
      | false => exact congrArg k (Nat.add_right_comm result.invalid 1 n)

theorem ingest_eq_countIngest (file : FindingsFile) (k : Nat → Act α) :
    (ingest repoId job reopen file >>= k) =
      countIngest repoId job reopen file >>= fun r => k r.invalid := by
  cases file with
  | missing | unreadable => rfl
  | entries list =>
    have h := @countEntries_invalid α repoId job reopen list {} k
    simpa [ingest, countIngest] using h.symm

end

/-- Ingest and settlement: the counts, and how many were retired and handed over. -/
def ingestAndSettle (repoId : Nat) (scan : DepScan) : Act (IngestResult × Nat × Nat) := do
  let counts ← countIngest repoId none false (.entries scan.entries)
  let retired ← sql (.supersedeUnproposedDepUpdates repoId scan.proposed scan.unchecked)
  let handedOver ← sql (.handOverQueuedDepUpdates repoId scan.moves)
  pure (counts, retired, handedOver)

end Hunter
