import Hunter.Scheduler.Harvest
set_option autoImplicit false

namespace Hunter

def latestActivity (pr : PrView) : Int :=
  (((pr.comments ++ pr.reviews).map PrComment.createdAt).max?).getD 0

/-- The static reasons of a view, absent when nothing static is wrong. -/
def attentionFingerprint (pr : PrView) : Option Text :=
  let parts :=
    (if pr.changesRequested then ["review:CHANGES_REQUESTED".toList] else []) ++
    (if pr.conflicting then ["mergeable:CONFLICTING".toList] else []) ++
    (if pr.failingChecks.isEmpty then []
      else ["checks:".toList ++ [','].intercalate pr.failingChecks])
  if parts.isEmpty then none else some (['|'].intercalate parts)

def engagedWatermark (prev : Option PrState) (pr : PrView) : Int :=
  (prev.bind PrState.lastEngagedActivityAt).getD (max pr.updatedAt (latestActivity pr))

def suppressed (prev : Option PrState) (pr : PrView) : Bool :=
  let fp := attentionFingerprint pr
  let sha := prev.bind PrState.addressedHeadSha
  fp.isSome && fp = prev.bind PrState.addressedFingerprint
    && sha.isSome && some pr.headSha = sha

def attentionReasons (prev : Option PrState) (pr : PrView) : List Text :=
  (if engagedWatermark prev pr < latestActivity pr then ["new_comments".toList] else []) ++
  (if suppressed prev pr then [] else
    (if pr.changesRequested then ["changes_requested".toList] else []) ++
    (if pr.conflicting then ["conflict".toList] else []) ++
    (if pr.failingChecks.isEmpty then [] else ["checks_failing".toList]))

def attention (prev : Option PrState) (pr : PrView) : Option Text :=
  let reasons := attentionReasons prev pr
  if reasons.isEmpty then none else some ([','].intercalate reasons)

def syncData (prev : Option PrState) (pr : PrView) (prNumber since syncedAt : Int) : SyncPrData :=
  let needed := attention prev pr
  { prNumber := prNumber
    headRef := pr.headRef
    headSha := some pr.headSha
    lastActivityAt := latestActivity pr
    lastEngagedActivityAt := engagedWatermark prev pr
    needsAttention := needed
    attentionFingerprint := attentionFingerprint pr
    attentionSince :=
      if needed = prev.bind PrState.needsAttention then none
      else if needed.isSome then some (some since)
      else some none
    clearAddressed :=
      (prev.bind PrState.addressedFingerprint).isSome
        && (attentionFingerprint pr ≠ prev.bind PrState.addressedFingerprint
          || some pr.headSha ≠ prev.bind PrState.addressedHeadSha)
    syncedAt := syncedAt }

def syncMerged (fid : Nat) (prNumber : Int) : Act Unit := do
  let now ← ask .now
  logWriteFailure (.setFindingStatus fid .merged)
  logWriteFailure (.markPrMerged fid prNumber now)

/-- The closure is recorded first: only then may the finding leave `pr_open`. -/
def syncClosed (fid : Nat) (prNumber : Int) : Act Unit := do
  let now ← ask .now
  match ← sqlResult (.markPrClosed fid prNumber now) with
  | .error _ => pure ()
  | .ok () =>
    logWriteFailure (.setAnchoredVerdict fid .closed
      "PR closed without merge; awaiting harvest".toList none)

def syncOpen (fid : Nat) (prNumber : Int) (pr : PrView) : Act Unit := do
  let prev ← (do
    match ← sqlResult (.getPrState fid) with
    | .ok ps => pure ps
    | .error _ => pure none : Act (Option PrState))
  let since ← ask .now
  let syncedAt ← ask .now
  logWriteFailure (.syncPrOpen fid (syncData prev pr prNumber since syncedAt))

def syncPr (fid : Nat) (f : Finding) : Act Unit := do
  match f.url with
  | none => logWriteFailure (.setFindingStatus fid .queued)
  | some url =>
    match ← sqlResult (.getRepoById f.repoId) with
    | .ok (some _) =>
      match ← ask (.parsePrUrl url) with
      | none => pure ()
      | some prNumber =>
        match ← ask (.viewPrSync fid prNumber) with
        | .error _ => pure ()
        | .ok pr =>
          match pr.state with
          | .merged => syncMerged fid prNumber
          | .closed => syncClosed fid prNumber
          | .opened => syncOpen fid prNumber pr
    | _ => pure ()

def syncEach : List (Row Finding) → Act Unit
  | [] => pure ()
  | row :: rest => do
    syncPr row.id row.val
    syncEach rest

def syncPrs : Act Unit := do
  match ← sqlResult (.findingsWithStatus .prOpen) with
  | .ok findings => syncEach findings
  | .error _ => pure ()

structure EngageStart where
  ps : PrState
  headRef : Text
  prNumber : Int
  pr : PrView
  job : Nat
  ws : Workspace

def engageTarget (fid : Nat) (finding : Finding) (resume : Option ResumePlan) :
    Act (PrState × Text × Int) := do
  let repo ← liveRepo finding.repoId
  let ps ← livePrState fid
  match ps.headRef.filter fun headRef => !headRef.isEmpty with
  | none => bail "no pr_state"
  | some headRef =>
    let prNumber ← prTarget fid finding ps
    if headRef = repo.defaultBranch then bail "head_ref equals default branch"
    else
      onlyIf resume.isNone (tryAsk (.fetch finding.repoId headRef))
      pure (ps, headRef, prNumber)

def startEngage (fid : Nat) (finding : Finding) (resume : Option ResumePlan) :
    Act (Option EngageStart) := do
  let (ps, headRef, prNumber) ← engageTarget fid finding resume
  match ← tryAsk (.budgetGate (.finding .engage) finding.budgetOverride.isSome) with
  | .denied => pure none
  | .approved =>
    match ← ask (.viewPrEngage fid prNumber) with
    | .error _ => bail "PR/MR view failed"
    | .ok pr =>
      match ← sql (.createJob (.finding .engage) finding.repoId (some fid) .running
        (resumePredecessor resume)) with
      | none => pure none
      | some created =>
        match ← openWorkspace created resume (.prHead headRef) with
        | .error _ => pure none
        | .ok ws =>
          pure (some {
            ps := ps, headRef := headRef, prNumber := prNumber, pr := pr
            job := created.id, ws := ws })

def seenActivity (ps : PrState) : Act Int := do
  match ps.lastActivityAt with
  | some t => pure t
  | none => ask .now

/-- Whether the PR is closed everywhere, so that its harvest may follow at once. -/
def withdrawPr (fid repoId : Nat) (start : EngageStart) (reason : Text) : Act Bool := do
  let forgeClosed ← (do
    match ← ask (.ownerRepo repoId) with
    | .error _ => pure (some false)
    | .ok () =>
      match ← ask (.closePr fid start.prNumber) with
      | .ok () => pure (some true)
      | .error _ => pure none : Act (Option Bool))
  match forgeClosed with
  | none =>
    let mark ← seenActivity start.ps
    let now ← ask .now
    logWriteFailure (.markPrEngaged fid mark now start.ps.attentionFingerprint start.ps.headSha)
    pure false
  | some forgeClosed =>
    let now ← ask .now
    match ← sqlResult (.markPrClosed fid start.prNumber now) with
    | .error _ => pure false
    | .ok () =>
      match ← sqlResult (.setAnchoredVerdict fid .closed (reason.take 500) none) with
      | .error _ => pure false
      | .ok () => pure forgeClosed

structure Published where
  pushed : Bool
  replied : Bool

def pushAndReply (fid : Nat) (start : EngageStart) (state : JobState) :
    Act (Except Text Published) := do
  if state ≠ .done then pure (.error ("worker ".toList ++ state.asStr))
  else
    match ← ask (.pushEngage start.ws.originId start.headRef start.ws.pinned) with
    | .error e => pure (.error ("push failed: ".toList ++ e))
    | .ok pushed =>
      match ← ask (.replyPr fid start.prNumber) with
      | .error e => pure (.error ("PR comment failed: ".toList ++ e))
      | .ok replied => pure (.ok { pushed := pushed, replied := replied })

def engagedMark (ps : PrState) (published : Published) : Act Int := do
  if published.replied then pure ((← ask .now) + 3000) else seenActivity ps

def recordEngage (fid : Nat) (finding : Finding) (start : EngageStart) (state : JobState)
    (published : Except Text Published) : Act Unit := do
  match published with
  | .error _ => onlyIf (state = .done) (logWriteFailure (.failJob start.job))
  | .ok published =>
    let mark ← engagedMark start.ps published
    let now ← ask .now
    logWriteFailure (.markPrEngaged fid mark now
      (if published.pushed then none else start.ps.attentionFingerprint)
      (if published.pushed then none else start.ps.headSha))
  clearOnce fid finding.budgetOverride

/-- A withdrawing engage's session goes on into the closed PR's harvest; best effort. -/
def continueIntoHarvest (fid repoId : Nat) (start : EngageStart) (session : Option Text) :
    Act Unit := do
  match session with
  | none => pure ()
  | some sessionFile =>
    match ← sqlResult (.getFinding fid) with
    | .ok (some finding) =>
      let _ ← (runHarvest fid finding (some {
        kind := .finding .harvest, repoId := repoId, findingId := some fid
        predecessorId := start.job, originJobId := start.ws.originId
        sessionFile := sessionFile, pinnedSha := start.ws.pinned, handoff := true })).attempt
      pure ()
    | _ => pure ()

def concludeEngage (fid : Nat) (finding : Finding) (start : EngageStart) (rr : RunResult)
    (resume : Option ResumePlan) : Act Unit := do
  let state ← recordedState start.job rr resume
  match ← ask (.withdrawFile start.ws.originId) with
  | some reason =>
    clearOnce fid finding.budgetOverride
    let closedOnForge ← withdrawPr fid finding.repoId start reason
    onlyIf (state = .suspended) (retireConcluded start.job)
    onlyIf closedOnForge (continueIntoHarvest fid finding.repoId start rr.sessionFile)
    closeWorkspace start.ws
  | none =>
    let published ← pushAndReply fid start state
    recordEngage fid finding start state published
    closeWorkspace start.ws

def runEngage (fid : Nat) (finding : Finding) (resume : Option ResumePlan) : Act Unit := do
  match ← startEngage fid finding resume with
  | none => pure ()
  | some start =>
    onlyIf resume.isNone (tryTree (.prompt start.job (.engage fid start.pr)))
    let rr ← tryTree (.runWorker start.job start.ws.originId (resumeSession resume))
    concludeEngage fid finding start rr resume

end Hunter
