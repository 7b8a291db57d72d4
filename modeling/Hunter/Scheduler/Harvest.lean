import Hunter.Scheduler.Scans
set_option autoImplicit false

namespace Hunter

/-- The finding's pull request: its row, and its number, healed from the url where missing. -/
def prTarget (fid : Nat) (finding : Finding) (ps : PrState) : Act Int := do
  match ps.prNumber with
  | some n => pure n
  | none =>
    match finding.prUrl with
    | none => bail "no pr_number"
    | some url =>
      match ← ask (.parsePrUrl url) with
      | none => bail "no pr_number"
      | some num =>
        logWriteFailure (.setPrNumber fid num)
        pure num

def livePrState (fid : Nat) : Act PrState := do
  match ← sqlResult (.getPrState fid) with
  | .ok (some ps) => pure ps
  | _ => bail "no pr_state"

/-- Whether the failure gave the PR up as harvested. -/
def recordHarvestFailure (fid : Nat) (key : Text) : Act Bool := do
  match ← (recordHarvestAttempt fid key).attempt with
  | .error _ => pure false
  | .ok streak =>
    if streak < maxConsecutiveSameFailure then pure false
    else
      let now ← ask .now
      match ← sqlResult (.markPrHarvested fid now) with
      | .error _ => pure false
      | .ok () =>
        clearHarvestAttempts fid
        pure true

/-- A harvest that failed before its job row exists; a handoff's is only logged. -/
def harvestPrefetchFailed (fid : Nat) (handoff : Bool) (key : Text) : Act Unit := do
  if handoff then pure ()
  else
    let _ ← recordHarvestFailure fid key
    pure ()

/-- What a concluded harvest failed with. -/
def harvestFailure (state : JobState) (closure : Option (Except CloseFailure CloseVerdict)) :
    Option Text :=
  match state with
  | .suspended => none
  | .done =>
    match closure with
    | some (.error why) => some why.streakKey
    | _ => none
  | state => some ("worker ".toList ++ state.asStr)

/-- Whether the review landed, or will be done again. -/
def recordReviewed (fid repoId : Nat) (pinned : Text) (resumed : Bool)
    (closure : Option (Except CloseFailure CloseVerdict)) : Act Bool := do
  match closure with
  | some (.ok verdict) =>
    let status := verdict.cls.status
    let judgedAt ← (if resumed then do
      pure ((← ask (.defaultTip repoId)).getD pinned) else pure pinned : Act Text)
    let now ← ask .now
    match ← sqlResult (.recordClosedHarvest fid status verdict.reason
      (verdictAnchor status judgedAt verdict.parts) now) with
    | .error _ => pure false
    | .ok _ => pure true
  | _ =>
    let now ← ask .now
    logWriteFailure (.markPrHarvested fid now)
    pure true

def concludeHarvest (fid : Nat) (finding : Finding) (job : Nat) (ws : Workspace) (closed : Bool)
    (resume : Option ResumePlan) (state : JobState) : Act Unit := do
  let handoff := resume.any ResumePlan.handoff
  let closure ← (if closed then do pure (some (← ask (.closeReason ws.originId)))
    else pure none : Act (Option (Except CloseFailure CloseVerdict)))
  let failure := harvestFailure state closure
  let gaveUp ← (match failure with
    | some key =>
      if handoff then pure none
      else do pure (some (← recordHarvestFailure fid key))
    | none => pure none : Act (Option Bool))
  let redone := state = .suspended || failure.isSome && gaveUp ≠ some true
  onlyIf (!redone) (ingestFollowups finding.repoId ws.originId job)
  closeWorkspace ws
  if state = .suspended then clearOnce fid finding.budgetOverride
  else if failure.isSome then
    if handoff then pure () else clearOnce fid finding.budgetOverride
  else
    let reviewed ← recordReviewed fid finding.repoId ws.pinned resume.isSome closure
    onlyIf reviewed (clearHarvestAttempts fid)
    clearOnce fid finding.budgetOverride

def runHarvestJob (fid : Nat) (finding : Finding) (repo : Repo) (closed : Bool)
    (resume : Option ResumePlan) (created : CreatedJob) : Act Unit := do
  let job := created.id
  match ← openWorkspace created resume (.detached ("origin/".toList ++ repo.defaultBranch)) with
  | .error _ => pure ()
  | .ok ws =>
    let rr ← runWorker job ws resume
    let state ← recordedState job rr resume
    concludeHarvest fid finding job ws closed resume state

/-- The PR's view, and for a closed PR reviewed afresh its diff. -/
def prefetchHarvest (fid : Nat) (prNumber : Int) (closed : Bool) (resume : Option ResumePlan) :
    Act Unit := do
  let handoff := resume.any ResumePlan.handoff
  match ← ask (.viewPrEngage fid prNumber) with
  | .error _ =>
    harvestPrefetchFailed fid handoff "pr view failed".toList
    bail "PR/MR view failed"
  | .ok _ =>
    if closed && resume.all ResumePlan.handoff then
      match ← ask (.prDiff fid prNumber) with
      | .error _ =>
        harvestPrefetchFailed fid handoff "pr diff failed".toList
        bail "PR/MR diff failed"
      | .ok () => pure ()
    else pure ()

def runHarvest (fid : Nat) (finding : Finding) (resume : Option ResumePlan) : Act Unit := do
  let repo ← liveRepo finding.repoId
  let ps ← livePrState fid
  let prNumber ← prTarget fid finding ps
  onlyIf (resume.all ResumePlan.handoff) (tryAsk (.fetch finding.repoId repo.defaultBranch))
  match ← tryAsk (.budgetGate (.finding .harvest) finding.budgetOverride.isSome) with
  | .denied => pure ()
  | .approved =>
    let closed := ps.state = some .closed
    prefetchHarvest fid prNumber closed resume
    match ← sql (.createJob (.finding .harvest) finding.repoId (some fid) .running
      (resumePredecessor resume)) with
    | none => pure ()
    | some created => runHarvestJob fid finding repo closed resume created

end Hunter
