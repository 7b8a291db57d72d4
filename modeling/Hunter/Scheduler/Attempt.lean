import Hunter.Calls
set_option autoImplicit false

namespace Hunter

/-! What every executor does with its job row and its tree. -/

def maxConsecutiveSameFailure : Nat := 3

/-- How to continue a suspended job, or with `handoff` a concluded engage's session. -/
structure ResumePlan where
  kind : JobKind
  repoId : Nat
  findingId : Option Nat
  predecessorId : Nat
  originJobId : Nat
  sessionFile : Text
  pinnedSha : Text
  handoff : Bool

/-- A chain's workspace, named by its first job. -/
structure Workspace where
  originId : Nat
  pinned : Text

def jobState (rr : RunResult) : JobState :=
  match rr.killedReason with
  | some reason =>
    if reason = "cap".toList ∧ rr.sessionFile.isSome then .suspended
    else if reason = "wallclock".toList ∧ rr.sessionFile.isSome ∧ 0 < rr.tokensNew then .suspended
    else if reason = "resume-unavailable".toList then .failed
    else .killed
  | none =>
    if rr.exitCode = some 0 then .done
    else if rr.sessionFile.isSome ∧ 0 < rr.tokensNew then .suspended
    else .failed

def RunResult.outcome (rr : RunResult) : JobOutcome :=
  { state := jobState rr, tokensNew := rr.tokensNew
    killedReason := rr.killedReason, sessionFile := rr.sessionFile }

def recordJob (job : Nat) (rr : RunResult) (resume : Option ResumePlan) : Act JobState := do
  let state := jobState rr
  sql (.completeJob job rr.outcome)
  match resume with
  | some plan =>
    onlyIf (!plan.handoff && rr.killedReason = some "resume-unavailable".toList) <|
      sql (.retireSuspendedJob plan.predecessorId .killed none)
    pure state
  | none => pure state

/-- `log_write_failure(record_job(..)).unwrap_or(Failed)`. -/
def recordedState (job : Nat) (rr : RunResult) (resume : Option ResumePlan) : Act JobState := do
  match ← (recordJob job rr resume).attempt with
  | .ok state => pure state
  | .error _ => pure .failed

def releaseIfIdle (origin : Nat) : Act Unit := do
  if ← sql (.chainLive origin) then pure () else tree (.release origin)

def closeWorkspace (ws : Workspace) : Act Unit := do
  let _ ← (releaseIfIdle ws.originId).attempt
  pure ()

def releaseSuperseded : List Nat → Act Unit
  | [] => pure ()
  | old :: rest => do
    let origin ← sql (.resumeOriginJob old)
    releaseIfIdle origin
    releaseSuperseded rest

def treeNotMade : Text := "workspace not created".toList

/-- The chain's workspace, or why a new one could not be made. -/
def openWorkspace (created : CreatedJob) (resume : Option ResumePlan) (spec : TreeSpec) :
    Act (Except Text Workspace) := do
  match resume with
  | some plan => pure (.ok { originId := plan.originJobId, pinned := plan.pinnedSha })
  | none =>
    releaseSuperseded created.superseded
    match ← tree (.create created.id spec) with
    | .ok sha =>
      sql (.setPinnedSha created.id sha)
      pure (.ok { originId := created.id, pinned := sha })
    | .error why =>
      sql (.failUnstartedJob created.id)
      pure (.error why)

def retireConcluded (job : Nat) : Act Unit :=
  logWriteFailure (.retireSuspendedJob job .killed none)

def clearOnce (fid : Nat) (mode : Option BudgetOverride) : Act Unit :=
  if mode = some .once then logWriteFailure (.setBudgetOverride fid none) else pure ()

def resumeSession (resume : Option ResumePlan) : Option Text :=
  resume.map ResumePlan.sessionFile

/-- The prompt, which a resume does not build, and the worker itself. -/
def runWorker (job : Nat) (ws : Workspace) (resume : Option ResumePlan) : Act RunResult := do
  onlyIf (resume.all ResumePlan.handoff) (tryTree (.prompt job .other))
  tryTree (.runWorker job ws.originId (resumeSession resume))

def resumePredecessor (resume : Option ResumePlan) : Option Nat :=
  resume.map ResumePlan.predecessorId

/-- `let Ok(Some(repo)) = get_repo_by_id(..) else bail`. -/
def liveRepo (repoId : Nat) : Act Repo := do
  match ← sqlResult (.getRepoById repoId) with
  | .ok (some repo) => pure repo
  | _ => bail "repo missing"

def recordFixAttempt (fid : Nat) (failure : Text) : Act Nat := do
  let f ← sql (.getFinding fid)
  let attempts := streakAfter (f.bind Finding.lastFixFailure)
    ((f.map Finding.fixAttempts).getD 0) failure
  sql (.setFixAttempts fid attempts (some failure))
  pure attempts

def recordRecheckAttempt (fid : Nat) (failure : Text) : Act Nat := do
  let f ← sql (.getFinding fid)
  let attempts := streakAfter (f.bind Finding.lastRecheckFailure)
    ((f.map Finding.recheckAttempts).getD 0) failure
  sql (.setRecheckAttempts fid attempts (some failure))
  pure attempts

def recordHarvestAttempt (fid : Nat) (failure : Text) : Act Nat := do
  let ps ← sql (.getPrState fid)
  let attempts := streakAfter (ps.bind PrState.lastHarvestFailure)
    ((ps.map PrState.harvestAttempts).getD 0) failure
  sql (.setHarvestAttempts fid attempts (some failure))
  pure attempts

def clearFixAttempts (fid : Nat) : Act Unit := logWriteFailure (.setFixAttempts fid 0 none)
def clearRecheckAttempts (fid : Nat) : Act Unit :=
  logWriteFailure (.setRecheckAttempts fid 0 none)
def clearHarvestAttempts (fid : Nat) : Act Unit :=
  logWriteFailure (.setHarvestAttempts fid 0 none)

end Hunter
