import Hunter.Scheduler.Attempt
set_option autoImplicit false

namespace Hunter

/-- `changed_since`; a verdict that watches no file never lapses. -/
def changedSince (repoId : Nat) (anchor : VerdictAnchor) (at_ : Text) : Act (Option Changed) := do
  if anchor.files.isEmpty then pure none
  else pure (anchor.changed (← tree (.diffNames repoId anchor at_)))

/-- `reopen_if_changed`. -/
def reopenIfChanged (repoId fid : Nat) (job : Option Nat) (row : FindingInsert) : Act Bool := do
  match job with
  | none => pure false
  | some job =>
    match ← sql (.getFinding fid) with
    | none => pure false
    | some finding =>
      if !finding.status.isSuppressed then pure false
      else
        match ← sql (.verdictAnchor fid) with
        | none => pure false
        | some anchor =>
          match ← sql (.pinnedSha job) with
          | none => pure false
          | some sha =>
            match ← sql (.getRepoById repoId) with
            | none => pure false
            | some _ =>
              if (← changedSince repoId anchor sha).isSome then sql (.reopenSuppressed fid row)
              else pure false

/-- One valid entry: whether it was filed without a lost write. -/
def ingestRow (repoId : Nat) (job : Option Nat) (reopen : Bool) (type : FindingType)
    (row : FindingInsert) : Act Bool := do
  match ← sqlResult (.upsertFinding repoId row type) with
  | .error _ => pure false
  | .ok (_, true) => pure true
  | .ok (fid, false) =>
    let reopened ← (if reopen then do
      match ← (reopenIfChanged repoId fid job row).attempt with
      | .ok reopened => pure reopened
      | .error _ => pure false
      else pure false : Act Bool)
    if reopened then pure true
    else if type = .depUpdate then
      match ← sqlResult (.refreshDepUpdate fid row) with
      | .ok _ => pure true
      | .error _ => pure false
    else pure true

def ingestEntries (repoId : Nat) (job : Option Nat) (reopen : Bool) : List ScanEntry → Act Nat
  | [] => pure 0
  | none :: rest => do
    let invalid ← ingestEntries repoId job reopen rest
    pure (invalid + 1)
  | some (type, row) :: rest => do
    let filed ← ingestRow repoId job reopen type row
    let invalid ← ingestEntries repoId job reopen rest
    pure (if filed then invalid else invalid + 1)

def ingest (repoId : Nat) (job : Option Nat) (reopen : Bool) : FindingsFile → Act Nat
  | .missing | .unreadable => pure 1
  | .entries list => ingestEntries repoId job reopen list

/-- `ingest_findings`: a suppressed finding stays suppressed. -/
def ingestFindings (repoId : Nat) (job : Option Nat) (file : FindingsFile) : Act Nat :=
  ingest repoId job false file

/-- `ingest_scan_findings`: an entry filed again reopens a lapsed verdict. -/
def ingestScanFindings (repoId job : Nat) (file : FindingsFile) : Act Nat :=
  ingest repoId (some job) true file

def ingestFollowups (repoId origin job : Nat) : Act Unit := do
  match ← ask (.followUps origin) with
  | .missing => pure ()
  | file =>
    let _ ← ingestFindings repoId (some job) file
    pure ()

def reconfirmAll (at_ : Text) : List (Nat × Option Text) → Act Unit
  | [] => pure ()
  | (fid, holdsWhile) :: rest => do
    logWriteFailure (.reconfirmAnchor fid at_ holdsWhile)
    reconfirmAll at_ rest

def applyReconfirmations (outJob : Nat) (at_ : Text) : Act Unit := do
  reconfirmAll at_ (← ask (.reconfirmed outJob))

/-- The file a chain's worker writes is named by the chain's first job. -/
def outJob (job : Nat) (resume : Option ResumePlan) : Nat :=
  (resume.map ResumePlan.originJobId).getD job

def concludeScan (repoId job : Nat) (ws : Workspace) (resume : Option ResumePlan) :
    Act Unit := do
  match ← tree (.findingsFile (outJob job resume)) with
  | .missing => pure ()
  | file => let _ ← ingestScanFindings repoId job file; pure ()
  applyReconfirmations (outJob job resume) ws.pinned
  closeWorkspace ws

def runScanJob (repoId : Nat) (created : CreatedJob) (resume : Option ResumePlan)
    (spec : TreeSpec) : Act (Option JobState) := do
  let job := created.id
  match ← openWorkspace created resume spec with
  | .error _ => pure (some .failed)
  | .ok ws =>
    let rr ← runWorker job ws resume
    let state ← recordedState job rr resume
    concludeScan repoId job ws resume
    pure (some state)

def startScanJob (kind : RepoJobKind) (repoId : Nat) (resume : Option ResumePlan)
    (spec : TreeSpec) : Act (Option JobState) := do
  onlyIf resume.isNone (tryAsk (.priorFindings repoId))
  match ← tryAsk (.budgetGate (.repo kind) false) with
  | .denied => pure none
  | .approved =>
    match ← sql (.createJob (.repo kind) repoId none .running (resumePredecessor resume)) with
    | none => pure none
    | some created => runScanJob repoId created resume spec

def runAnalysisJob (kind : RepoJobKind) (repoId : Nat) (repo : Repo)
    (resume : Option ResumePlan) : Act (Option JobState) := do
  if !(← ask (.repoCloned repoId)) then bail "repo not cloned"
  else
    onlyIf resume.isNone (tryAsk (.syncRepo repoId))
    startScanJob kind repoId resume (.detached ("origin/".toList ++ repo.defaultBranch))

def markAttempted (repoId : Nat) : Option Int → Act Unit
  | some request => logWriteFailure (.markFullHuntAttempted repoId request)
  | none => pure ()

/-- The commit a chain reviews up to: the fetched tip, or what its tree was created at. -/
def huntHead (repoId : Nat) (repo : Repo) : Option ResumePlan → Act Text
  | some plan => pure plan.pinnedSha
  | none => do
    match ← ask (.fetchTip repoId) with
    | .ok tip => pure tip
    | .error e =>
      markAttempted repoId repo.fullHuntRequestedAt
      .fail e

/-- Whether a full re-hunt should start: requested, or due once the interval has passed. -/
def rehuntDue (repo : Repo) : Option ResumePlan → Act Bool
  | some _ => pure false
  | none =>
    match repo.fullHuntRequestedAt, repo.lastFullHuntAt with
    | some _, _ => pure true
    | none, some last => do
      let now ← ask .now
      let interval ← ask .rehuntInterval
      pure (decide (interval ≤ now - last))
    | none, none => pure false

def resumedFull (repo : Repo) : Option ResumePlan → Act Bool
  | some plan => do
    let marked ← sql (.jobFullHistory plan.predecessorId)
    pure (marked || (repo.lastHuntSha.isNone && repo.lastFullHuntAt.isSome))
  | none => pure false

/-- The range to review since `last`. -/
def huntRange (repoId : Nat) (head : Text) (last : Option Text) (full : Bool) : Act DiffRange := do
  match last with
  | some l => pure { base := l, head := head }
  | none =>
    if full then pure { base := emptyTree, head := head }
    else
      let history ← tree (.history repoId head)
      pure { base := history.base head, head := head }

/-- What a hunt's job row and its repo's are told of the scope. -/
def markHunt (repoId job : Nat) (repo : Repo) (range : DiffRange) : Act Unit := do
  onlyIf range.fullScope
    (logWriteFailure (.markFullHistory job repo.fullHuntRequestedAt))
  markAttempted repoId repo.fullHuntRequestedAt

/-- A reviewed range moves the watermark to the commit the chain was pinned at. -/
def advanceWatermark (repoId job : Nat) (repo : Repo) (range : DiffRange) (pinned : Text) :
    Act Unit := do
  logWriteFailure (.setLastHunt repoId pinned)
  onlyIf (range.fullScope || repo.lastFullHuntAt.isNone) do
    let now ← ask .now
    logWriteFailure (.setLastFullHunt repoId now)
  onlyIf range.fullScope (logWriteFailure (.settleFullHuntRequest repoId job))

def concludeHunt (repoId job : Nat) (repo : Repo) (range : DiffRange) (ws : Workspace)
    (resume : Option ResumePlan) (state : JobState) : Act Unit := do
  match ← tree (.findingsFile (outJob job resume)) with
  | .missing => pure ()
  | file =>
    let invalid ← ingestScanFindings repoId job file
    onlyIf (state = .done && invalid = 0) (advanceWatermark repoId job repo range ws.pinned)
  applyReconfirmations (outJob job resume) ws.pinned
  closeWorkspace ws

def runHuntJob (repoId : Nat) (repo : Repo) (range : DiffRange) (created : CreatedJob)
    (resume : Option ResumePlan) : Act (Option JobState) := do
  let job := created.id
  onlyIf resume.isNone (markHunt repoId job repo range)
  match ← openWorkspace created resume (.detached range.head) with
  | .error _ => pure (some .failed)
  | .ok ws =>
    onlyIf resume.isNone (tryTree (.prompt job (.hunt range)))
    let rr ← tryTree (.runWorker job ws.originId (resumeSession resume))
    let state ← recordedState job rr resume
    ask (.huntSummary job state range)
    concludeHunt repoId job repo range ws resume state
    pure (some state)

def startHunt (repoId : Nat) (repo : Repo) (range : DiffRange) (resume : Option ResumePlan) :
    Act (Option JobState) := do
  onlyIf resume.isNone (tryAsk (.priorFindings repoId))
  match ← tryAsk (.budgetGate (.repo .hunt) false) with
  | .denied => pure none
  | .approved =>
    match ← sql (.createJob (.repo .hunt) repoId none .running (resumePredecessor resume)) with
    | none => pure none
    | some created => runHuntJob repoId repo range created resume

/-- The range since `last`, unless nothing is new. -/
def huntSince (repoId : Nat) (repo : Repo) (head : Text) (last : Option Text) (full : Bool)
    (resume : Option ResumePlan) : Act (Option JobState) := do
  if resume.isNone && last = some head then
    sql (.setLastHunt repoId head)
    pure none
  else
    let range ← huntRange repoId head last full
    startHunt repoId repo range resume

def runHunt (repoId : Nat) (repo : Repo) (resume : Option ResumePlan) :
    Act (Option JobState) := do
  let head ← huntHead repoId repo resume
  let due ← rehuntDue repo resume
  onlyIf due (logWriteFailure (.clearLastHuntSha repoId))
  let last := if due then none else repo.lastHuntSha
  let resumed ← resumedFull repo resume
  huntSince repoId repo head last (due || resumed) resume

def settleDepUpdates (repoId : Nat) (scan : DepScan) : Act Unit := do
  let _ ← sql (.supersedeUnproposedDepUpdates repoId scan.proposed scan.unchecked)
  let _ ← sql (.handOverQueuedDepUpdates repoId scan.moves)

def runRenovateScan (repoId : Nat) (scan : DepScan) : Act (Option JobState) := do
  tryAsk (.writeScan repoId)
  let invalid ← ingestFindings repoId none (.entries scan.entries)
  onlyIf (invalid = 0) (settleDepUpdates repoId scan)
  pure (some .done)

def runDepUpdate (repoId : Nat) (repo : Repo) (resume : Option ResumePlan) :
    Act (Option JobState) := do
  if resume.isSome then runAnalysisJob .depUpdate repoId repo resume
  else if !(← ask (.repoCloned repoId)) then bail "repo not cloned"
  else
    tryAsk (.syncRepo repoId)
    match ← ask (.renovateScan repoId) with
    | none => runAnalysisJob .depUpdate repoId repo resume
    | some scan => runRenovateScan repoId scan

def runRepoJob (kind : RepoJobKind) (repoId : Nat) (resume : Option ResumePlan) :
    Act (Option JobState) := do
  match ← sql (.getRepoById repoId) with
  | none => .fail ("repo ".toList ++ Text.nat repoId ++ " not found".toList)
  | some repo =>
    match kind with
    | .hunt => runHunt repoId repo resume
    | .depUpdate => runDepUpdate repoId repo resume
    | kind => runAnalysisJob kind repoId repo resume

end Hunter
