import Hunter.Effect.Machine
import Hunter.Scheduler.PullRequests
import Hunter.Scheduler.Select
set_option autoImplicit false

namespace Hunter
open Effect

/-- The transcript and the work an orphaned job did itself, when nothing still runs there. -/
def orphanWork (job : Nat) : Act (Option (Text × Int)) := do
  let origin ← sql (.resumeOriginJob job)
  match ← tree (.ledgerUsage origin) with
  | none => pure none
  | some (file, tokens) =>
    let own := tokens - (← sql (.ancestorTokens job))
    if own ≤ 0 then pure none
    else if ← ask (.treeInUse origin) then pure none
    else pure (some (file, own))

def suspendOrphans : List (Row Job) → Act Unit
  | [] => pure ()
  | job :: rest => do
    match ← orphanWork job.id with
    | some (file, tokens) => sql (.suspendOrphan job.id file tokens)
    | none => pure ()
    suspendOrphans rest

def requeueStuck : List (Row Finding) → Act Unit
  | [] => pure ()
  | f :: rest => do
    sql (.setFindingStatus f.id .queued)
    requeueStuck rest

def orphanJobs : List (Row Job) → Act Unit
  | [] => pure ()
  | job :: rest => do
    sql (.orphanJob job.id)
    orphanJobs rest

def reconcileOrphanedJobs : Act Unit := do
  requeueStuck (← sql (.findingsWithStatus .fixing))
  orphanJobs (← sql .listRunningJobs)

def reconcileAndLog : Act Unit := do
  suspendOrphans (← sql .listRunningJobs)
  reconcileOrphanedJobs

def sweepChains : List Nat → Act Unit
  | [] => pure ()
  | origin :: rest => do
    releaseIfIdle origin
    sweepChains rest

def sweep : Act Unit := do
  let _ ← sql .retireStrandedSuspensions
  sweepChains (← ask .workspaceDirs)

def sweepWorkspaces : Act Unit := do
  let _ ← sweep.attempt
  pure ()

/-- The row goes last: it is what tells that files of the repo are left. -/
def reapRepo (id : Nat) : Act Unit := do
  tryAsk (.removeClone id)
  tryAsk (.removeNotes id)
  sql (.forgetDeletedRepo id)

def reapEach : List Nat → Act Unit
  | [] => pure ()
  | id :: rest => do
    let _ ← (reapRepo id).attempt
    reapEach rest

def reapDeletedRepos : Act Unit := do
  match ← sqlResult .deletedRepoIds with
  | .ok ids => reapEach ids
  | .error _ => pure ()

def runFindingJob (kind : FindingJobKind) (findingId : Nat) (resume : Option ResumePlan) :
    Act Unit := do
  match ← sql (.getFinding findingId) with
  | none => .fail ("finding ".toList ++ Text.nat findingId ++ " not found".toList)
  | some finding =>
    match kind with
    | .engage => runEngage findingId finding resume
    | .harvest => runHarvest findingId finding resume
    | .recheck => runRecheck findingId finding resume
    | .fix => runFix findingId finding resume

def dispatch : Candidate → Act Unit
  | .finding kind findingId => runFindingJob kind findingId none
  | .repo kind repoId => do
    let _ ← runRepoJob kind repoId none
    pure ()
  | .resume plan =>
    match plan.kind with
    | .repo kind => do
      let _ ← runRepoJob kind plan.repoId (some plan)
      pure ()
    | .finding kind =>
      match plan.findingId with
      | none => .fail ("resume of a ".toList ++ kind.asStr ++ " job with no finding".toList)
      | some findingId => runFindingJob kind findingId (some plan)

inductive Phase
  | startup
  | reconcile
  | cycle
  | select
  | dispatch (candidate : Candidate)

def runCycle : Act Phase := do
  let open_ ← sql (.findingsWithStatus .prOpen)
  onlyIf (!open_.isEmpty) syncPrs
  if ← ask .diskGate then pure .reconcile else pure .select

def runPhase : Phase → Act Phase
  | .startup => do
    reapDeletedRepos
    sweepWorkspaces
    pure .reconcile
  | .reconcile => do
    reconcileAndLog
    pure .cycle
  | .cycle => do
    reapDeletedRepos
    sweepWorkspaces
    runCycle
  | .select => do
    match ← select with
    | .again => pure .select
    | .idle => pure .reconcile
    | .picked candidate => pure (.dispatch candidate)
  | .dispatch candidate => do
    dispatch candidate
    pure .reconcile

/-- What an operator's request does, where it is accepted. -/
inductive Request
  | verdict (fid : Nat) (status : FindingStatus) (reason : Option Text)
  | recheck (fid : Nat)
  | unqueue (fid : Nat)
  | override (fid : Nat) (mode : Option BudgetOverride)
  | clearOverrides
  | addRepo (name defaultBranch : Text)
  | updateRepo (repoId : Nat) (defaultBranch : Option Text)
  | deleteRepo (repoId : Nat) (now : Int)
  /-- The end of a deletion, or of one that is asked for again. -/
  | reapRepo (repoId : Nat)
  | fullHunt (repoId : Nat) (now : Int)

/-- Set a verdict's reason, where it comes with one, only from the status it was read at. -/
def Store.applyVerdict (s : Store) (fid : Nat) (source status : FindingStatus)
    (reason : Option Text) : Store :=
  match reason with
  | some reason => (s.setVerdictIf fid source status reason).1
  | none => (s.claimInProgress fid source status).1

def Store.clearAllOverrides (s : Store) : Store :=
  { s with findings := s.findings.map fun f => { f with budgetOverride := none } }

/-- The store after a request's write; one that is refused changes nothing. -/
inductive Accepts (s : Store) : Request → Store → Prop
  | verdict {fid : Nat} {source status : FindingStatus} {reason : Option Text} :
      source.awaitsVerdict → status.isVerdict → source ≠ status →
      (status.reasonRequired → reason.isSome) →
      Accepts s (.verdict fid status reason) (s.applyVerdict fid source status reason)
  | recheck {fid : Nat} : Accepts s (.recheck fid) (s.claimInProgress fid .new .rechecking).1
  | unqueue {fid : Nat} : Accepts s (.unqueue fid) (s.claimInProgress fid .queued .new).1
  | override {fid : Nat} {mode : Option BudgetOverride} :
      Accepts s (.override fid mode) (s.setBudgetOverride fid mode)
  | clearOverrides : Accepts s .clearOverrides s.clearAllOverrides
  | addRepo {name defaultBranch : Text} :
      Accepts s (.addRepo name defaultBranch) (s.addRepo name defaultBranch)
  | updateRepo {repoId : Nat} {defaultBranch : Option Text} :
      (∀ branch, defaultBranch = some branch → branch ≠ [] ∧ branch.trim = branch) →
      Accepts s (.updateRepo repoId defaultBranch) (s.updateRepo repoId defaultBranch)
  | deleteRepo {repoId : Nat} {now : Int} :
      Accepts s (.deleteRepo repoId now) (s.softDeleteRepo repoId now)
  | reapRepo {repoId : Nat} : s.droppable repoId = true →
      Accepts s (.reapRepo repoId) (s.forgetDeletedRepo repoId)
  | fullHunt {repoId : Nat} {now : Int} :
      Accepts s (.fullHunt repoId now) (s.requestFullHunt repoId now)

/-- What happens beside the daemon: requests, and trees that go missing. -/
inductive EnvStep : World → World → Prop
  | request {w : World} {r : Request} {s : Store} :
      Accepts w.store r s → EnvStep w { w with store := s }
  | treeLost {w : World} {origin : Nat} :
      EnvStep w { w with trees := w.trees.filter fun t => t.origin ≠ origin }

def daemon : Machine Call Text World where
  Phase := Phase
  boot := .startup
  afterError := .reconcile
  body := runPhase
  init w := w = { store := { repos := [], findings := [], jobs := [] }, trees := [] }
  step := CallStep
  env := EnvStep
  mayCrash _ _ := True

end Hunter
