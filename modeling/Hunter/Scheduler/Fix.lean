import Hunter.Scheduler.Attempt
set_option autoImplicit false

namespace Hunter

def slugChar (c : Char) : Char :=
  if c.isAlphanum then c.toLower else '-'

def slugWords (s : Text) : List Text :=
  (s.splitOn '-').filter fun w => !w.isEmpty

/-- At most 40 characters of the words, without a dash at the end. -/
def slug (summary : Text) : Text :=
  (((['-'].intercalate (slugWords (summary.map slugChar))).take 40).reverse.dropWhile
    (· = '-')).reverse

def branchPrefix : FindingType → Text
  | .bug => "fix".toList
  | .modernization => "modernize".toList
  | _ => "improve".toList

def fixBranch (fid : Nat) (finding : Finding) : Text :=
  branchPrefix finding.type ++ '/' :: slug finding.report.summary ++ '-' :: Text.nat fid

/-- `finalize_in_progress(fixing, queued)`. -/
def releaseClaim (fid : Nat) : Act Unit :=
  logWriteFailure (.claimInProgress fid .fixing .queued)

def holdBlocked (fid job : Nat) (report : Text) : Act Unit := do
  match ← sqlResult (.blockFixJob fid job report) with
  | .ok () => pure ()
  | .error e =>
    releaseClaim fid
    .fail e

def streakHoldReport (streak : Nat) (failure detail : Text) : Text :=
  "stuck: ".toList ++ Text.nat streak ++
    " consecutive fix attempts hit the same failure: ".toList ++ failure ++ "\n\n".toList ++ detail

/-- Whether the failure ended the fix, the finding blocked. -/
def recordFixFailure (fid job : Nat) (failure detail : Text) : Act Bool := do
  match ← (recordFixAttempt fid failure).attempt with
  | .error _ => pure false
  | .ok streak =>
    if streak < maxConsecutiveSameFailure then pure false
    else
      holdBlocked fid job (streakHoldReport streak failure detail)
      pure true

structure FixStart where
  job : Nat
  ws : Workspace
  branch : Text
  previousBlocker : Option Text

/-- The blocker a resume works against, or `none` where the checkpoint is held again. -/
def prepareBlockedResume (fid : Nat) (resume : Option ResumePlan) :
    Act (Option (Option Text)) := do
  match resume with
  | none => pure (some none)
  | some plan =>
    match ← sqlResult (.jobBlocker plan.predecessorId) with
    | .error e =>
      releaseClaim fid
      .fail e
    | .ok none => pure (some none)
    | .ok (some blocker) =>
      match ← ask (.removeBlockedReport plan.originJobId) with
      | .ok () => pure (some (some blocker))
      | .error _ =>
        holdBlocked fid plan.predecessorId blocker
        pure none

def countUnmadeTree (fid job : Nat) (why : Text) : Act Unit := do
  let counted ← (recordFixFailure fid job treeNotMade why).attempt
  releaseClaim fid
  match counted with
  | .ok _ => pure ()
  | .error e => .fail e

/-- From the claim on; `none` is a cycle that ends without a worker. -/
def startClaimedFix (fid : Nat) (finding : Finding) (repo : Repo) (resume : Option ResumePlan) :
    Act (Option FixStart) := do
  match ← prepareBlockedResume fid resume with
  | none => pure none
  | some previousBlocker =>
    match ← sqlResult (.createJob (.finding .fix) finding.repoId (some fid) .running
      (resumePredecessor resume)) with
    | .error e =>
      releaseClaim fid
      .fail e
    | .ok none =>
      releaseClaim fid
      pure none
    | .ok (some created) =>
      let branch := fixBranch fid finding
      match ← (openWorkspace created resume
        (.branch branch ("origin/".toList ++ repo.defaultBranch))).attempt with
      | .error e =>
        releaseClaim fid
        .fail e
      | .ok (.error why) =>
        countUnmadeTree fid created.id why
        pure none
      | .ok (.ok ws) =>
        pure (some {
          job := created.id, ws := ws, branch := branch, previousBlocker := previousBlocker })

def startFix (fid : Nat) (finding : Finding) (resume : Option ResumePlan) :
    Act (Option FixStart) := do
  if finding.status ≠ .queued then pure none
  else
    let repo ← liveRepo finding.repoId
    match ← tryAsk (.budgetGate (.finding .fix) finding.budgetOverride.isSome) with
    | .denied => pure none
    | .approved =>
      if ← sql (.claimInProgress fid .queued .fixing) then
        startClaimedFix fid finding repo resume
      else pure none

inductive FixOutcome
  | blocked (report : Text) (fromTree : Bool)
  | declined (decline : Decline)
  | shipped (prUrl : Text)
  | suspended
  | failed (failure : Text)

/-- The PR's url, or why nothing shipped. -/
def shipPr (repoId : Nat) (start : FixStart) (state : JobState) : Act (Except Text Text) := do
  let commits ← ask (.fixCommits start.ws.originId)
  if !commits.logged || !commits.committed || !commits.described then
    pure (.error (
      if state = .done then
        if !commits.committed then "no commits".toList else "no PR-DESCRIPTION.md".toList
      else "worker ".toList ++ state.asStr))
  else
    match ← ask (.push start.ws.originId) with
    | .error e => pure (.error ("push failed: ".toList ++ e))
    | .ok () =>
      match ← ask (.ownerRepo repoId) with
      | .error url => pure (.error ("unparseable repo url for PR: ".toList ++ url))
      | .ok () =>
        match ← ask (.createPr repoId start.ws.originId start.branch) with
        | .ok url => pure (.ok url)
        | .error e => pure (.error ("PR create failed: ".toList ++ e))

def concludeFix (fid : Nat) (finding : Finding) (start : FixStart) (state : JobState) :
    Act FixOutcome := do
  match ← ask (.fixReport start.ws.originId) with
  | .error e =>
    releaseClaim fid
    .fail e
  | .ok (some (.declined decline)) => pure (.declined decline)
  | .ok (some (.blocked report)) => pure (.blocked report true)
  | .ok none =>
    match start.previousBlocker with
    | some report =>
      if state ≠ .done then pure (.blocked report false)
      else shipOrFail
    | none => shipOrFail
where
  shipOrFail : Act FixOutcome := do
    match ← shipPr finding.repoId start state with
    | .ok url => pure (.shipped url)
    | .error failure =>
      if state = .suspended then pure .suspended else pure (.failed failure)

def recordDeclinedFix (fid : Nat) (start : FixStart) (decline : Decline) : Act Unit := do
  let status := (decline.cls.map ClosureClass.status).getD .new
  logWriteFailure (.setAnchoredVerdict fid status decline.reason
    (verdictAnchor status start.ws.pinned decline.parts))
  clearFixAttempts fid
  releaseClaim fid

def recordFixOutcome (fid : Nat) (finding : Finding) (start : FixStart) (tail : Text) :
    FixOutcome → Act Unit
  | .blocked report fromTree => do
    holdBlocked fid start.job report
    onlyIf fromTree (tryAsk (.removeBlockedReport start.ws.originId))
    sql (.logEvent fid)
  | .declined decline => recordDeclinedFix fid start decline
  | .shipped prUrl => do
    logWriteFailure (.setFindingPrOpen fid prUrl)
    clearFixAttempts fid
    clearOnce fid finding.budgetOverride
    releaseClaim fid
  | .suspended => do
    clearOnce fid finding.budgetOverride
    releaseClaim fid
  | .failed failure => do
    let _ ← recordFixFailure fid start.job failure tail
    clearOnce fid finding.budgetOverride
    releaseClaim fid

def FixOutcome.concluded : FixOutcome → Bool
  | .declined _ | .shipped _ => true
  | _ => false

def concludeStartedFix (fid : Nat) (finding : Finding) (start : FixStart) (rr : RunResult)
    (resume : Option ResumePlan) : Act Unit := do
  let state ← recordedState start.job rr resume
  let outcome ← concludeFix fid finding start state
  recordFixOutcome fid finding start rr.stdoutTail outcome
  onlyIf (state = .suspended && outcome.concluded) (retireConcluded start.job)
  closeWorkspace start.ws

def runFix (fid : Nat) (finding : Finding) (resume : Option ResumePlan) : Act Unit := do
  match ← startFix fid finding resume with
  | none => pure ()
  | some start =>
    match ← tree (.prompt start.job .other) with
    | .error e =>
      releaseClaim fid
      .fail e
    | .ok () =>
      match ← tree (.runWorker start.job start.ws.originId (resumeSession resume)) with
      | .error e =>
        match start.previousBlocker with
        | some blocker => holdBlocked fid start.job blocker
        | none => releaseClaim fid
        .fail e
      | .ok rr => concludeStartedFix fid finding start rr resume

end Hunter
