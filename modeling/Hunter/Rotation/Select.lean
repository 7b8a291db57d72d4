import Hunter.Rotation.Calls
set_option autoImplicit false

namespace Hunter
open Effect RotaAct

/-- Whether a selection records what it finds on the way. -/
inductive Pick
  | run
  | preview
  deriving DecidableEq

def resumeEvent (job : Row Job) : Event :=
  { kind := "resume".toList, jobId := some job.id, findingId := job.val.findingId }

/-- A chain without its tree is retired, or by a preview only skipped. -/
def retireGoneIn (mode : Pick) (job : Row Job) : RotaAct Resumable := do
  match mode with
  | .run =>
    let gone ← base (retireGone job)
    logEvent (resumeEvent job)
    pure gone
  | .preview => pure .no

def endChainTurn (job : Row Job) : RotaAct Unit :=
  match job.val.kind with
  | .repo kind => setLastKindAt job.val.repoId kind
  | .finding _ => pure ()

def tellGaveUp (job : Row Job) (retired : Resumable) : RotaAct Unit :=
  match retired, job.val.kind with
  | .gaveUp _, .repo kind => tell (.gaveUp job.val.repoId kind)
  | _, _ => pure ()

/-- A chain past the ceiling is retired after its timestamp is written, or by a preview
only skipped. -/
def giveUpChainIn (mode : Pick) (job : Row Job) (why : Text) : RotaAct Resumable := do
  match mode with
  | .run =>
    endChainTurn job
    let retired ← base (giveUpChain job why)
    logEvent (resumeEvent job)
    tellGaveUp job retired
    pure retired
  | .preview => pure .no

def planChainIn (mode : Pick) (job : Row Job) (repo : Repo) (plan : ResumePlan) :
    RotaAct Resumable := do
  let z ← base (ask (.anticipatedTokens job.val.repoId job.val.kind))
  let chain ← base (sql (.resumeChainStats job.id))
  if chain.tooMany || chain.tooCostly z then
    if ← base (operatorRequeued job) then pure (.yes plan)
    else giveUpChainIn mode job (giveUpMessage job.val.kind repo.name chain z)
  else pure (.yes plan)

def resumePlanIn (mode : Pick) (job : Row Job) : RotaAct Resumable := do
  match job.val.sessionFile with
  | none => pure .no
  | some sessionFile =>
    match ← base (sql (.getRepoById job.val.repoId)) with
    | none => pure .no
    | some repo =>
      let origin ← base (sql (.resumeOriginJob job.id))
      match ← base (sql (.pinnedSha job.id)) with
      | none => retireGoneIn mode job
      | some sha =>
        if !(← base (tree (.isDir origin))) then retireGoneIn mode job
        else if !(← base (ask (.sessionInWorkspace sessionFile origin))) then
          retireGoneIn mode job
        else
          planChainIn mode job repo {
            kind := job.val.kind, repoId := job.val.repoId, findingId := job.val.findingId
            predecessorId := job.id, originJobId := origin
            sessionFile := sessionFile, pinnedSha := sha, handoff := false }

def resumeFindingIn (mode : Pick) (kind : FindingJobKind) (fid : Nat) :
    List (Row Job) → RotaAct (Option Candidate)
  | [] => pure (some (.finding kind fid))
  | job :: rest => do
    if job.val.findingId = some fid && job.val.kind = .finding kind then
      match ← resumePlanIn mode job with
      | .yes plan => pure (some (.resume plan))
      | .gaveUp why =>
        if ← base (countGivenUpChain kind fid job.id why) then pure none
        else resumeFindingIn mode kind fid rest
      | .no => resumeFindingIn mode kind fid rest
    else resumeFindingIn mode kind fid rest

def findingPickIn (mode : Pick) (kind : FindingJobKind) (fid : Nat) :
    RotaAct (Option Candidate) := do
  resumeFindingIn mode kind fid (← base (sql .listResumableJobs))

def pickResumeIn (mode : Pick) : List (Row Job) → RotaAct (Option Candidate)
  | [] => pure none
  | job :: rest => do
    match ← resumePlanIn mode job with
    | .yes plan => pure (some (.resume plan))
    | _ => pickResumeIn mode rest

/-- The finding the finding tiers work on, with its tier: overridden findings first. -/
def Tiers.pickTier (tiers : Tiers) : Option (Tier × FindingJobKind × Nat) :=
  let at_ (tier : FindingJobKind → Tier) (kind : FindingJobKind) (row : Option (Row Finding)) :=
    row.map fun r => (tier kind, kind, r.id)
  (at_ .overridden .engage (overridden tiers.attention)).or <|
  (at_ .overridden .harvest (overridden tiers.pendingHarvest)).or <|
  (at_ .overridden .recheck (overridden tiers.rechecking)).or <|
  (at_ .overridden .fix (overridden tiers.queued)).or <|
  (at_ .waiting .engage tiers.attention.head?).or <|
  (at_ .waiting .harvest tiers.pendingHarvest.head?).or <|
  (at_ .waiting .recheck tiers.rechecking.getLast?).or <|
  at_ .waiting .fix tiers.queued.getLast?

theorem Tiers.pick_eq (tiers : Tiers) : tiers.pick = tiers.pickTier.map Prod.snd := by
  simp only [pick, pickTier, Option.map_or, Option.map_map, Function.comp_def]

/-- The first repo with a scan to run: a missing clone is the hunt's to make. -/
def rotate (cfg : ScanConfig) (now : Int) :
    List RotationRow → RotaAct (Option (Why × RepoJobKind × Nat))
  | [] => pure none
  | target :: rest => do
    if !(← base (ask (.repoCloned target.id))) then pure (some (.uncloned, .hunt, target.id))
    else if fullHuntUrgent target.repo then pure (some (.urgent, .hunt, target.id))
    else
      match rotationKind cfg target now with
      | some kind => pure (some (.due, kind, target.id))
      | none => rotate cfg now rest

def rotationTier (cfg : ScanConfig) : RotaAct (Option (Why × RepoJobKind × Nat)) := do
  let repos ← listRepos
  let now ← base (ask .now)
  rotate cfg now (staleness repos)

inductive Choice
  | again
  | idle
  | picked (picked : Picked)

def Choice.isAgain : Choice → Bool
  | again => true
  | _ => false

def Choice.selection : Choice → Selection
  | again => .again
  | idle => .idle
  | picked p => .picked p.candidate

def selectBackgroundIn (cfg : ScanConfig) (mode : Pick) : RotaAct Choice := do
  match ← pickResumeIn mode (← base (sql .listResumableJobs)) with
  | some candidate => pure (.picked { tier := .resume, candidate := candidate })
  | none =>
    match ← rotationTier cfg with
    | some (why, kind, repoId) =>
      pure (.picked { tier := .rotation why, candidate := .repo kind repoId })
    | none => pure .idle

/-- `select`; `again` where the pick is made anew. -/
def selectIn (cfg : ScanConfig) (mode : Pick) : RotaAct Choice := do
  let tiers ← base readTiers
  match tiers.pickTier with
  | some (tier, kind, fid) =>
    match ← findingPickIn mode kind fid with
    | some candidate => pure (.picked { tier := tier, candidate := candidate })
    | none => pure .again
  | none => selectBackgroundIn cfg mode

def pickNext (cfg : ScanConfig) : RotaAct Choice := selectIn cfg .run

def previewNext (cfg : ScanConfig) : RotaAct Choice := selectIn cfg .preview

end Hunter
