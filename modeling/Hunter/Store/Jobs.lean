import Hunter.Store.Tables
import Mathlib.Data.List.Dedup
import Mathlib.Data.List.Sort
set_option autoImplicit false

namespace Hunter

/-- The finding status at which a kind's suspended job may be continued. -/
def FindingJobKind.resumableAt : FindingJobKind → FindingStatus → Bool
  | .fix, .queued => true
  | .recheck, .rechecking => true
  | .engage, .prOpen => true
  | .harvest, .merged | .harvest, .closed => true
  | _, _ => false

def FindingJobKind.keptAt : FindingJobKind → FindingStatus → Bool
  | .fix, .blocked | .fix, .fixing => true
  | kind, status => kind.resumableAt status

/-- A retirement's `killed_reason = COALESCE(?, killed_reason)`. -/
def Job.retire (state : JobState) (killedReason : Option Text) (j : Job) : Job :=
  { j with state := state, killedReason := killedReason.or j.killedReason }

/-- The first attempt, a cap kill, and an attempt that spent tokens. -/
def Job.counted (j : Job) : Bool :=
  j.resumedFrom.isNone || j.killedReason = some "cap".toList || 0 < j.tokensNew.getD 0

structure JobOutcome where
  state : JobState
  tokensNew : Int
  killedReason : Option Text
  sessionFile : Option Text

structure CreatedJob where
  id : Nat
  superseded : List Nat
  deriving DecidableEq

structure ResumeChainStats where
  total : Int
  attempts : Nat
  maxSingle : Int
  deriving DecidableEq

def resumeChainMaxDepth : Nat := 64

def minCompletedSamples : Nat := 3
def recentCompletedWindow : Nat := 20

namespace Store
variable (s : Store)

def hasSuccessor (id : Nat) : Bool :=
  s.jobs.any fun j => j.resumedFrom = some id

/-- `id` and its predecessors, at most `depth` links up. -/
def ancestry : Nat → Nat → List Nat
  | 0, id => if (s.job? id).isSome then [id] else []
  | depth + 1, id =>
    match s.job? id with
    | none => []
    | some j => id :: (match j.resumedFrom with
      | none => []
      | some p => ancestry depth p)

def resumeOriginJob (id : Nat) : Nat :=
  (s.ancestry resumeChainMaxDepth id).min?.getD id

def tokensOf (ids : List Nat) : Int :=
  (ids.map fun id => ((s.job? id).bind Job.tokensNew).getD 0).sum

def ancestorTokens (id : Nat) : Int :=
  s.tokensOf ((s.ancestry resumeChainMaxDepth id).filter (· ≠ id))

/-- Whether `row` is one same-kind link away from a job of `chain`. -/
def adjacentTo (kind : JobKind) (chain : List Nat) (row : Row Job) : Bool :=
  row.val.kind = kind && chain.any fun id =>
    row.val.resumedFrom = some id || (s.job? id).any fun j => j.resumedFrom = some row.id

def widen (kind : JobKind) (chain : List Nat) : List Nat :=
  ((rows s.jobs).filter fun row => chain.contains row.id || s.adjacentTo kind chain row).map Row.id

/-- The jobs of `id`'s own kind its links connect it to. -/
def chainIds (id : Nat) : List Nat :=
  match s.job? id with
  | none => []
  | some j => (s.widen j.kind)^[resumeChainMaxDepth] [id]

def resumeChainStats (id : Nat) : ResumeChainStats :=
  let chain := (s.chainIds id).filterMap s.job?
  { total := (chain.map fun j => j.tokensNew.getD 0).sum
    attempts := chain.countP Job.counted
    maxSingle := ((chain.filterMap Job.tokensNew).max?).getD 0 }

/-- Successors of a chain's first job, at most `resumeChainMaxDepth` links down. -/
def descend (chain : List Nat) : List Nat :=
  ((rows s.jobs).filter fun row =>
    chain.contains row.id || row.val.resumedFrom.any chain.contains).map Row.id

/-- Running, or suspended and continued by nothing. -/
def live (id : Nat) (j : Job) : Bool :=
  j.state = .running || (j.state = .suspended && !s.hasSuccessor id)

/-- Whether the chain rooted at `origin` still has a live job. -/
def chainLive (origin : Nat) : Bool :=
  ((s.descend)^[resumeChainMaxDepth] [origin]).any fun id =>
    (s.job? id).any (s.live id)

/-- The predecessor of `id` among the jobs of `kind`. -/
def kindParent (kind : JobKind) (id : Nat) : Option Nat :=
  ((s.job? id).bind Job.resumedFrom).filter fun p => (s.job? p).any fun j => j.kind = kind

/-- `head` and its predecessors of `kind`, at most `depth` links up. -/
def kindAncestry (kind : JobKind) : Nat → Nat → List Nat
  | 0, head => [head]
  | depth + 1, head =>
    head :: (match s.kindParent kind head with
      | none => []
      | some p => kindAncestry kind depth p)

def kindChain (kind : JobKind) (head : Nat) : List Nat :=
  (s.kindAncestry kind resumeChainMaxDepth head).dedup

/-- The most recent done rows of a kind. -/
def recentDone (kind : JobKind) : List Nat :=
  ((((rows s.jobs).filter fun row =>
    row.val.kind = kind && row.val.state = .done && row.val.tokensNew.isSome).reverse).take
      recentCompletedWindow).map Row.id

def kindTokens (kind : JobKind) : List Int :=
  (rows s.jobs).filterMap fun row => if row.val.kind = kind then row.val.tokensNew else none

def kindTokenHistory (kind : JobKind) : List Int :=
  let done := ((s.recentDone kind).map fun head => s.tokensOf (s.kindChain kind head)).insertionSort
    (· ≤ ·)
  if minCompletedSamples ≤ done.length then done else (s.kindTokens kind).insertionSort (· ≤ ·)

def statusOf (findingId : Option Nat) : Option FindingStatus :=
  (findingId.bind s.finding?).map Finding.status

def openSuspension (id : Nat) (j : Job) : Bool :=
  j.state = .suspended && !s.hasSuccessor id

def resumable (id : Nat) (j : Job) : Bool :=
  s.openSuspension id j
    && (s.repo? j.repoId).any (fun r => !r.deleted)
    && j.sessionFile.isSome
    && (match j.kind with
      | .repo _ => true
      | .finding kind => (s.statusOf j.findingId).any kind.resumableAt)

def listResumableJobs : List (Row Job) :=
  ((rows s.jobs).filter fun row => s.resumable row.id row.val).reverse

def listRunningJobs : List (Row Job) :=
  (rows s.jobs).filter fun row => row.val.state = .running

def pinnedSha (id : Nat) : Option Text := (s.job? id).bind Job.pinnedSha
def jobBlocker (id : Nat) : Option Text := (s.job? id).bind Job.blocker
def jobFullHistory (id : Nat) : Bool := (s.job? id).any Job.fullHistory

def retireJob (id : Nat) (state : JobState) (killedReason : Option Text) : Store :=
  s.modifyJob id (Job.retire state killedReason)

def stranded (id : Nat) (j : Job) : Bool :=
  s.openSuspension id j
    && (s.repo? j.repoId).isSome
    && (s.statusOf j.findingId).any fun status =>
      match j.kind with
      | .repo _ => true
      | .finding kind => !kind.keptAt status

def retireAll (ids : List Nat) (state : JobState) (killedReason : Text) : Store :=
  ids.foldl (fun s id => s.retireJob id state (some killedReason)) s

def retireStrandedSuspensions : Store × List Nat :=
  let ids := ((rows s.jobs).filter fun row => s.stranded row.id row.val).map Row.id
  (s.retireAll ids .killed "finding-moved".toList, ids)

/-- Whether fresh work `kind` for this finding or repo supersedes job `id`. -/
def supersededBy (kind : JobKind) (repoId : Nat) (findingId : Option Nat) (id : Nat)
    (j : Job) : Bool :=
  s.openSuspension id j
    && j.kind = kind
    && (if kind.isFinding then findingId.isSome && j.findingId = findingId
      else j.repoId = repoId)
    && (s.repo? j.repoId).isSome

/-- `none` when the repo is deleted. -/
def createJob (kind : JobKind) (repoId : Nat) (findingId : Option Nat) (state : JobState)
    (resumedFrom : Option Nat) : Option (Store × CreatedJob) :=
  if (s.repo? repoId).any (fun r => !r.deleted) then
    let predecessor := resumedFrom.bind s.job?
    let id := s.jobs.length
    let inserted := s.addJob {
      kind := kind, repoId := repoId, findingId := findingId, state := state
      resumedFrom := resumedFrom
      pinnedSha := predecessor.bind Job.pinnedSha
      blocker := predecessor.bind Job.blocker
      fullHistory := predecessor.any Job.fullHistory
      fullHuntRequest := predecessor.bind Job.fullHuntRequest }
    match resumedFrom with
    | some _ => some (inserted, { id := id, superseded := [] })
    | none =>
      let old := ((rows inserted.jobs).filter fun row =>
        row.id ≠ id && inserted.supersededBy kind repoId findingId row.id row.val).map Row.id
      some (inserted.retireAll old .killed "superseded".toList, { id := id, superseded := old })
  else none

def failUnstartedJob (id : Nat) : Store :=
  s.modifyJob id fun j => { j with state := .failed }

def setPinnedSha (id : Nat) (sha : Text) : Store :=
  s.modifyJob id fun j => { j with pinnedSha := some sha }

def markFullHistory (id : Nat) (request : Option Int) : Store :=
  s.modifyJob id fun j => { j with fullHistory := true, fullHuntRequest := request }

def completeJob (id : Nat) (outcome : JobOutcome) : Store :=
  s.modifyJob id fun j =>
    { j with
      state := outcome.state
      tokensNew := some outcome.tokensNew
      killedReason := outcome.killedReason
      sessionFile := outcome.sessionFile }

def suspendOrphan (id : Nat) (sessionFile : Text) (tokensNew : Int) : Store :=
  s.modifyJob id fun j =>
    { j with
      state := .suspended
      killedReason := some "orphaned".toList
      sessionFile := some sessionFile
      tokensNew := some tokensNew }

def orphanJob (id : Nat) : Store :=
  s.modifyJob id fun j => { j with state := .killed, killedReason := some "orphaned".toList }

def failJob (id : Nat) : Store :=
  s.modifyJob id fun j => { j with state := .failed }

/-- `none` is the `RowNotFound` that rolls both rows back. -/
def blockFixJob (findingId id : Nat) (reason : Text) : Option Store :=
  match s.job? id, s.finding? findingId with
  | some j, some _ =>
    if j.findingId = some findingId ∧ j.kind = .finding .fix then
      let inherited := (j.resumedFrom.bind s.job?).bind Job.sessionFile
      let held := s.modifyJob id fun j =>
        { j with
          state := .suspended
          blocker := some reason
          sessionFile := j.sessionFile.or inherited }
      some (held.modifyFinding findingId fun f =>
        { f with status := .blocked, fixAttempts := 0, lastFixFailure := none })
    else none
  | _, _ => none

end Store

end Hunter
