import Hunter.Scheduler.Fix
import Hunter.Scheduler.Harvest
import Hunter.Scheduler.Recheck
set_option autoImplicit false

namespace Hunter

inductive Candidate
  | repo (kind : RepoJobKind) (repoId : Nat)
  | finding (kind : FindingJobKind) (findingId : Nat)
  | resume (plan : ResumePlan)

def giveUpMultiple : Int := 3
def maxResumeAttempts : Nat := 4

inductive Resumable
  | yes (plan : ResumePlan)
  | gaveUp (why : Text)
  | no

namespace ResumeChainStats

def tooMany (chain : ResumeChainStats) : Bool := maxResumeAttempts ≤ chain.attempts

def tooCostly (chain : ResumeChainStats) (z : Int) : Bool :=
  0 < z && 2 ≤ chain.attempts && giveUpMultiple * z < chain.total - chain.maxSingle

def giveUpReason (chain : ResumeChainStats) (z : Int) : Text :=
  if chain.tooMany then Text.nat chain.attempts ++ " attempts, the limit".toList
  else Text.int (chain.total - chain.maxSingle) ++ " tok outside its largest attempt > ".toList ++
    Text.int giveUpMultiple ++ "x ".toList ++ Text.int z ++ " typical".toList

end ResumeChainStats

def giveUpMessage (kind : JobKind) (repo : Text) (chain : ResumeChainStats) (z : Int) : Text :=
  "resume ".toList ++ kind.asStr ++ ' ' :: repo ++ ": giving up after ".toList ++
    Text.int chain.total ++ " tok across the chain (".toList ++ chain.giveUpReason z ++ [')']

/-- Whether an over-ceiling chain is taken for a held fix an operator requeued. -/
def operatorRequeued (job : Row Job) : Act Bool := do
  if job.val.kind = .finding .fix then pure (← sql (.jobBlocker job.id)).isSome else pure false

def giveUpChain (job : Row Job) (why : Text) : Act Resumable := do
  match ← sqlResult (.retireSuspendedJob job.id .failed (some "give-up".toList)) with
  | .ok () => pure (.gaveUp why)
  | .error _ => pure .no

/-- The give-up ceiling, for a chain whose tree and transcript are there. -/
def planChain (job : Row Job) (repo : Repo) (plan : ResumePlan) : Act Resumable := do
  let z ← ask (.anticipatedTokens job.val.repoId job.val.kind)
  let chain ← sql (.resumeChainStats job.id)
  if chain.tooMany || chain.tooCostly z then
    if ← operatorRequeued job then pure (.yes plan)
    else giveUpChain job (giveUpMessage job.val.kind repo.name chain z)
  else pure (.yes plan)

def retireGone (job : Row Job) : Act Resumable := do
  logWriteFailure (.retireSuspendedJob job.id .killed (some "workdir-gone".toList))
  pure .no

def resumePlan (job : Row Job) : Act Resumable := do
  match job.val.sessionFile with
  | none => pure .no
  | some sessionFile =>
    match ← sql (.getRepoById job.val.repoId) with
    | none => pure .no
    | some repo =>
      let origin ← sql (.resumeOriginJob job.id)
      match ← sql (.pinnedSha job.id) with
      | none => retireGone job
      | some sha =>
        if !(← tree (.isDir origin)) then retireGone job
        else if !(← ask (.sessionInWorkspace sessionFile origin)) then retireGone job
        else
          planChain job repo {
            kind := job.val.kind, repoId := job.val.repoId, findingId := job.val.findingId
            predecessorId := job.id, originJobId := origin
            sessionFile := sessionFile, pinnedSha := sha, handoff := false }

def chainGaveUp : Text := "resume chain gave up".toList

/-- Whether the given-up chain ended the finding's work in its tier. -/
def countGivenUpChain (kind : FindingJobKind) (fid job : Nat) (why : Text) : Act Bool := do
  match kind with
  | .recheck => handleRecheckFailure fid chainGaveUp none
  | .fix =>
    match ← (recordFixFailure fid job chainGaveUp why).attempt with
    | .ok blocked => pure blocked
    | .error _ => pure false
  | .harvest => recordHarvestFailure fid chainGaveUp
  | .engage =>
    let now ← ask .now
    match ← sqlResult (.setAttentionAside fid now) with
    | .ok () => pure true
    | .error _ => pure false

def resumeFinding (kind : FindingJobKind) (fid : Nat) : List (Row Job) → Act (Option Candidate)
  | [] => pure (some (.finding kind fid))
  | job :: rest => do
    if job.val.findingId = some fid && job.val.kind = .finding kind then
      match ← resumePlan job with
      | .yes plan => pure (some (.resume plan))
      | .gaveUp why =>
        if ← countGivenUpChain kind fid job.id why then pure none
        else resumeFinding kind fid rest
      | .no => resumeFinding kind fid rest
    else resumeFinding kind fid rest

/-- `none` when a chain given up here ended the finding's work. -/
def findingPick (kind : FindingJobKind) (fid : Nat) : Act (Option Candidate) := do
  resumeFinding kind fid (← sql .listResumableJobs)

def pickResume : List (Row Job) → Act (Option Candidate)
  | [] => pure none
  | job :: rest => do
    match ← resumePlan job with
    | .yes plan => pure (some (.resume plan))
    | _ => pickResume rest

def flagged : List (Row Finding) → Act (List (Option Int × Row Finding))
  | [] => pure []
  | row :: rest => do
    let ps ← sql (.getPrState row.id)
    let others ← flagged rest
    match ps with
    | some ps =>
      if ps.needsAttention.isSome then
        pure ((ps.attentionSince.or ps.syncedAt, row) :: others)
      else pure others
    | none => pure others

def listAttention : Act (List (Row Finding)) := do
  let found ← flagged (← sql (.findingsWithStatus .prOpen))
  pure ((found.insertionSort fun a b => Store.syncedBefore a.1 b.1 = true).map Prod.snd)

structure Tiers where
  rechecking : List (Row Finding)
  attention : List (Row Finding)
  pendingHarvest : List (Row Finding)
  queued : List (Row Finding)

def overridden (rows : List (Row Finding)) : Option (Row Finding) :=
  rows.find? fun row => row.val.budgetOverride.isSome

namespace Tiers

/-- A budget override jumps the queue; then flagged PRs, harvests, rechecks and fixes. -/
def pick (tiers : Tiers) : Option (FindingJobKind × Nat) :=
  let at_ (kind : FindingJobKind) (row : Option (Row Finding)) := row.map fun r => (kind, r.id)
  (at_ .engage (overridden tiers.attention)).or <|
  (at_ .harvest (overridden tiers.pendingHarvest)).or <|
  (at_ .recheck (overridden tiers.rechecking)).or <|
  (at_ .fix (overridden tiers.queued)).or <|
  (at_ .engage tiers.attention.head?).or <|
  (at_ .harvest tiers.pendingHarvest.head?).or <|
  (at_ .recheck tiers.rechecking.getLast?).or <|
  at_ .fix tiers.queued.getLast?

end Tiers

inductive Selection
  | again
  | idle
  | picked (candidate : Candidate)

def readTiers : Act Tiers := do
  let rechecking ← sql (.findingsWithStatus .rechecking)
  let attention ← listAttention
  let pendingHarvest ← sql .listPendingHarvest
  let queued ← sql (.findingsWithStatus .queued)
  pure {
    rechecking := rechecking, attention := attention
    pendingHarvest := pendingHarvest, queued := queued }

def selectBackground : Act Selection := do
  match ← pickResume (← sql .listResumableJobs) with
  | some candidate => pure (.picked candidate)
  | none =>
    match ← tryAsk .rotationPick with
    | some (kind, repoId) => pure (.picked (.repo kind repoId))
    | none => pure .idle

def select : Act Selection := do
  let tiers ← readTiers
  match tiers.pick with
  | some (kind, fid) =>
    match ← findingPick kind fid with
    | some candidate => pure (.picked candidate)
    | none => pure .again
  | none => selectBackground

end Hunter
