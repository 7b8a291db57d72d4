import Hunter.Scheduler.Attempt
set_option autoImplicit false

namespace Hunter

/-- Whether the failure ended the recheck, the finding back in the inbox. -/
def handleRecheckFailure (fid : Nat) (failure : Text) (mode : Option BudgetOverride) :
    Act Bool := do
  let stuck ← (do
    match ← (recordRecheckAttempt fid failure).attempt with
    | .error _ => pure false
    | .ok streak =>
      if streak < maxConsecutiveSameFailure then pure false
      else
        match ← sqlResult (.setFindingStatus fid .new) with
        | .error _ => pure false
        | .ok () =>
          clearRecheckAttempts fid
          pure true : Act Bool)
  clearOnce fid mode
  pure stuck

def recheckReason (reason : Text) : Text := "recheck: ".toList ++ reason.take 500

def recheckVerdict (fid : Nat) (state : JobState) : Act (Except Text RecheckOutcome) := do
  if state ≠ .done then pure (.error ("worker ".toList ++ state.asStr))
  else
    match ← ask (.verdictFile fid) with
    | .missing => pure (.error "no verdict file".toList)
    | .unparseable => pure (.error "unparseable verdict file".toList)
    | .parsed none => pure (.error "missing verdict field".toList)
    | .parsed (some (.unknown raw)) =>
      pure (.error ("invalid verdict value: ".toList ++ raw))
    | .parsed (some outcome) => pure (.ok outcome)

def recordRecheck (fid : Nat) (pinned : Text) : RecheckOutcome → Act Unit
  | .confirmed fields => do
    logWriteFailure (.updateFindingAnalysis fid fields)
    logWriteFailure (.setFindingStatus fid .new)
    clearRecheckAttempts fid
  | .stale reason => do
    logWriteFailure (.setAnchoredVerdict fid .superseded (recheckReason reason) none)
    clearRecheckAttempts fid
  | .invalid reason parts => do
    logWriteFailure (.setAnchoredVerdict fid .rejected (recheckReason reason)
      (verdictAnchor .rejected pinned parts))
    clearRecheckAttempts fid
  | .unknown _ => pure ()

def concludeRecheck (fid : Nat) (mode : Option BudgetOverride) (ws : Workspace)
    (state : JobState) : Act Unit := do
  closeWorkspace ws
  if state = .suspended then clearOnce fid mode
  else
    match ← recheckVerdict fid state with
    | .error failure => let _ ← handleRecheckFailure fid failure mode; pure ()
    | .ok outcome =>
      recordRecheck fid ws.pinned outcome
      clearOnce fid mode

def runRecheckJob (fid : Nat) (repo : Repo) (mode : Option BudgetOverride)
    (resume : Option ResumePlan) (created : CreatedJob) : Act Unit := do
  let job := created.id
  match ← openWorkspace created resume (.detached ("origin/".toList ++ repo.defaultBranch)) with
  | .error _ => let _ ← handleRecheckFailure fid treeNotMade none; pure ()
  | .ok ws =>
    let rr ← runWorker job ws resume
    let state ← recordedState job rr resume
    concludeRecheck fid mode ws state

def runRecheck (fid : Nat) (finding : Finding) (resume : Option ResumePlan) : Act Unit := do
  if finding.status ≠ .rechecking then pure ()
  else
    let repo ← liveRepo finding.repoId
    onlyIf resume.isNone (tryAsk (.syncRepo finding.repoId))
    match ← tryAsk (.budgetGate (.finding .recheck) finding.budgetOverride.isSome) with
    | .denied => pure ()
    | .approved =>
      match ← sql (.createJob (.finding .recheck) finding.repoId (some fid) .running
        (resumePredecessor resume)) with
      | none => pure ()
      | some created => runRecheckJob fid repo finding.budgetOverride resume created

end Hunter
