import Hunter.Effect.Machine
import Hunter.Store.Findings
import Hunter.Store.Jobs
import Hunter.Store.Repos
set_option autoImplicit false

namespace Hunter
open Effect

structure RunResult where
  killedReason : Option Text
  exitCode : Option Int
  tokensNew : Int
  sessionFile : Option Text
  stdoutTail : Text

inductive BudgetDecision
  | approved
  | denied

structure PrComment where
  id : Nat
  createdAt : Int
  deriving DecidableEq

/-- A pull request as the forge shows it, its feedback screened. -/
structure PrView where
  state : PrPhase
  headRef : Option Text
  headSha : Text
  updatedAt : Int
  comments : List PrComment
  reviews : List PrComment
  changesRequested : Bool
  conflicting : Bool
  failingChecks : List Text
  deriving DecidableEq

/-- What a rejection rests on: the files it watches, and its `Holds while` condition. -/
structure AnchorParts where
  files : List Text
  holdsWhile : Option Text

/-- `verdict_anchor`: only a rejection is anchored. -/
def verdictAnchor (status : FindingStatus) (sha : Text) (parts : AnchorParts) :
    Option VerdictAnchor :=
  if status = .rejected then
    some { sha := sha, files := parts.files, holdsWhile := parts.holdsWhile }
  else none

structure Decline where
  cls : Option ClosureClass
  reason : Text
  parts : AnchorParts

/-- What a fix worker left in its tree: a decline, or a blocker's report. -/
inductive FixReport
  | declined (decline : Decline)
  | blocked (report : Text)

/-- `git log`, and whether `PR-DESCRIPTION.md` is there. -/
structure FixCommits where
  logged : Bool
  committed : Bool
  described : Bool

inductive RecheckOutcome
  | confirmed (fields : FindingAnalysisUpdate)
  | stale (reason : Text)
  | invalid (reason : Text) (parts : AnchorParts)
  /-- `raw` as `{:?}` prints it. -/
  | unknown (raw : Text)

/-- The verdict file of a recheck; `parsed none` has no verdict field. -/
inductive VerdictFile
  | missing
  | unparseable
  | parsed (verdict : Option RecheckOutcome)

structure CloseFailure where
  streakKey : Text
  detail : Text

structure CloseVerdict where
  cls : ClosureClass
  reason : Text
  parts : AnchorParts

/-- One entry of a findings file: `none` is an invalid one. -/
abbrev ScanEntry := Option (FindingType × FindingInsert)

inductive FindingsFile
  | missing
  | unreadable
  | entries (list : List ScanEntry)

structure DepScan where
  entries : List ScanEntry
  proposed : List Text
  unchecked : List Text
  moves : List ProposedMove

/-- `git diff --name-only`: the lines it prints, unless it fails. -/
inductive GitDiff
  | failed
  | listed (lines : List Text)
  deriving DecidableEq

def emptyTree : Text := "4b825dc642cb6eb9a060e54bf8d69288fbee4904".toList

/-- The commits a hunt reviews: those up to `head` that `base` does not have. -/
structure DiffRange where
  base : Text
  head : Text
  deriving DecidableEq

namespace DiffRange

def text (range : DiffRange) : Text := range.base ++ "..".toList ++ range.head

def fullScope (range : DiffRange) : Bool := emptyTree.isPrefixOf range.text

theorem fullScope_of_base {range : DiffRange} (h : range.base = emptyTree) :
    range.fullScope = true := by
  rw [fullScope, text, h, List.isPrefixOf_iff_prefix, List.append_assoc]
  exact List.prefix_append _ _

end DiffRange

/-- What git prints of the history of a commit: the last commit older than three weeks, and
the one thirty commits back. -/
structure History where
  before : Text
  back : Option Text

/-- The base of a first hunt; a very small repo is scanned from its root. -/
def History.base (history : History) (head : Text) : Text :=
  let before := history.before.trim
  if before.isEmpty || before = head then
    match history.back with
    | none => emptyTree
    | some back => if back.trim.isEmpty then emptyTree else back.trim
  else before

/-- What a worker is told to do: to review a range, to answer a pull request's view, or else. -/
inductive Brief
  | hunt (range : DiffRange)
  | engage (finding : Nat) (view : PrView)
  | other

inductive Changed
  | files (since : Text) (files : List Text)
  | unknown (since : Text)
  deriving DecidableEq

/-- What a diff of the anchored files tells; a commit git cannot compare vouches for nothing. -/
def VerdictAnchor.changed (anchor : VerdictAnchor) : GitDiff → Option Changed
  | .failed => some (.unknown (anchor.sha.take 12))
  | .listed lines =>
    let files := (lines.map Text.trim).filter fun line => !line.isEmpty
    if files.isEmpty then none else some (.files (anchor.sha.take 12) files)

/-- Questions to git, the forge, the budget, the clock and the configuration. -/
inductive Query : Type → Type
  | now : Query Int
  | anticipatedTokens (repoId : Nat) (kind : JobKind) : Query Int
  | sessionInWorkspace (session : Text) (origin : Nat) : Query Bool
  | repoCloned (repoId : Nat) : Query Bool
  | syncRepo (repoId : Nat) : Query (Except Text Unit)
  | fetch (repoId : Nat) (ref : Text) : Query (Except Text Unit)
  | fetchTip (repoId : Nat) : Query (Except Text Text)
  | rehuntInterval : Query Int
  | priorFindings (repoId : Nat) : Query (Except Text Unit)
  | budgetGate (kind : JobKind) (prioritized : Bool) : Query (Except Text BudgetDecision)
  | diskGate : Query Bool
  | treeInUse (origin : Nat) : Query Bool
  | removeBlockedReport (origin : Nat) : Query (Except Text Unit)
  | fixReport (origin : Nat) : Query (Except Text (Option FixReport))
  | fixCommits (origin : Nat) : Query FixCommits
  | push (origin : Nat) : Query (Except Text Unit)
  | ownerRepo (repoId : Nat) : Query (Except Text Unit)
  | createPr (repoId origin : Nat) (branch : Text) : Query (Except Text Text)
  | verdictFile (finding : Nat) : Query VerdictFile
  | parsePrUrl (url : Text) : Query (Option Int)
  | viewPrSync (finding : Nat) (prNumber : Int) : Query (Except Text PrView)
  | viewPrEngage (finding : Nat) (prNumber : Int) : Query (Except Text PrView)
  | prDiff (finding : Nat) (prNumber : Int) : Query (Except Text Unit)
  | withdrawFile (origin : Nat) : Query (Option Text)
  | closePr (finding : Nat) (prNumber : Int) : Query (Except Text Unit)
  | pushEngage (origin : Nat) (headRef pinned : Text) : Query (Except Text Bool)
  | replyPr (finding : Nat) (prNumber : Int) : Query (Except Text Bool)
  | closeReason (origin : Nat) : Query (Except CloseFailure CloseVerdict)
  | defaultTip (repoId : Nat) : Query (Option Text)
  | followUps (origin : Nat) : Query FindingsFile
  | reconfirmed (outJob : Nat) : Query (List (Nat × Option Text))
  | renovateScan (repoId : Nat) : Query (Option DepScan)
  | writeScan (repoId : Nat) : Query (Except Text Unit)
  | rotationPick : Query (Except Text (Option (RepoJobKind × Nat)))
  | workspaceDirs : Query (List Nat)
  | removeClone (repoId : Nat) : Query (Except Text Unit)
  | removeNotes (repoId : Nat) : Query (Except Text Unit)
  | huntSummary (job : Nat) (state : JobState) (range : DiffRange) : Query Unit

inductive StoreCall : Type → Type
  | getFinding (id : Nat) : StoreCall (Option Finding)
  | getPrState (id : Nat) : StoreCall (Option PrState)
  | verdictAnchor (id : Nat) : StoreCall (Option VerdictAnchor)
  | findingsWithStatus (status : FindingStatus) : StoreCall (List (Row Finding))
  | listPendingHarvest : StoreCall (List (Row Finding))
  | listResumableJobs : StoreCall (List (Row Job))
  | listRunningJobs : StoreCall (List (Row Job))
  | getRepoById (id : Nat) : StoreCall (Option Repo)
  | resumeOriginJob (id : Nat) : StoreCall Nat
  | resumeChainStats (id : Nat) : StoreCall ResumeChainStats
  | ancestorTokens (id : Nat) : StoreCall Int
  | pinnedSha (id : Nat) : StoreCall (Option Text)
  | jobBlocker (id : Nat) : StoreCall (Option Text)
  | jobFullHistory (id : Nat) : StoreCall Bool
  | chainLive (origin : Nat) : StoreCall Bool
  | createJob (kind : JobKind) (repoId : Nat) (findingId : Option Nat) (state : JobState)
      (resumedFrom : Option Nat) : StoreCall (Option CreatedJob)
  | failUnstartedJob (id : Nat) : StoreCall Unit
  | setPinnedSha (id : Nat) (sha : Text) : StoreCall Unit
  | markFullHistory (id : Nat) (request : Option Int) : StoreCall Unit
  | completeJob (id : Nat) (outcome : JobOutcome) : StoreCall Unit
  | failJob (id : Nat) : StoreCall Unit
  | suspendOrphan (id : Nat) (sessionFile : Text) (tokensNew : Int) : StoreCall Unit
  | orphanJob (id : Nat) : StoreCall Unit
  | retireSuspendedJob (id : Nat) (state : JobState) (killedReason : Option Text) : StoreCall Unit
  | retireStrandedSuspensions : StoreCall (List Nat)
  | blockFixJob (findingId id : Nat) (reason : Text) : StoreCall Unit
  | setFindingStatus (id : Nat) (status : FindingStatus) : StoreCall Unit
  | setAnchoredVerdict (id : Nat) (status : FindingStatus) (reason : Text)
      (anchor : Option VerdictAnchor) : StoreCall Unit
  | claimInProgress (id : Nat) (source target : FindingStatus) : StoreCall Bool
  | setFindingPrOpen (id : Nat) (prUrl : Text) : StoreCall Unit
  | setBudgetOverride (id : Nat) (mode : Option BudgetOverride) : StoreCall Unit
  | updateFindingAnalysis (id : Nat) (fields : FindingAnalysisUpdate) : StoreCall Unit
  | setFixAttempts (id attempts : Nat) (failure : Option Text) : StoreCall Unit
  | setRecheckAttempts (id attempts : Nat) (failure : Option Text) : StoreCall Unit
  | setHarvestAttempts (id attempts : Nat) (failure : Option Text) : StoreCall Unit
  | markPrMerged (id : Nat) (prNumber syncedAt : Int) : StoreCall Unit
  | markPrClosed (id : Nat) (prNumber syncedAt : Int) : StoreCall Unit
  | syncPrOpen (id : Nat) (d : SyncPrData) : StoreCall Unit
  | markPrEngaged (id : Nat) (lastEngagedActivityAt syncedAt : Int)
      (fingerprint headSha : Option Text) : StoreCall Unit
  | setAttentionAside (id : Nat) (now : Int) : StoreCall Unit
  | markPrHarvested (id : Nat) (harvestedAt : Int) : StoreCall Unit
  | recordClosedHarvest (id : Nat) (status : FindingStatus) (reason : Text)
      (anchor : Option VerdictAnchor) (harvestedAt : Int) : StoreCall Bool
  | setPrNumber (id : Nat) (prNumber : Int) : StoreCall Unit
  | upsertFinding (repoId : Nat) (row : FindingInsert) (type : FindingType) :
      StoreCall (Nat × Bool)
  | reopenSuppressed (id : Nat) (row : FindingInsert) : StoreCall Bool
  | refreshDepUpdate (id : Nat) (row : FindingInsert) : StoreCall Bool
  | reconfirmAnchor (id : Nat) (sha : Text) (holdsWhile : Option Text) : StoreCall Unit
  | logEvent (fid : Nat) : StoreCall Unit
  | supersedeUnproposedDepUpdates (repoId : Nat) (proposed unchecked : List Text) : StoreCall Nat
  | handOverQueuedDepUpdates (repoId : Nat) (moves : List ProposedMove) : StoreCall Nat
  | setLastHunt (repoId : Nat) (sha : Text) : StoreCall Unit
  | clearLastHuntSha (repoId : Nat) : StoreCall Unit
  | setLastFullHunt (repoId : Nat) (now : Int) : StoreCall Unit
  | markFullHuntAttempted (repoId : Nat) (request : Int) : StoreCall Unit
  | settleFullHuntRequest (repoId job : Nat) : StoreCall Unit
  | deletedRepoIds : StoreCall (List Nat)
  | forgetDeletedRepo (id : Nat) : StoreCall Unit

/-- The statement's answer and the database after it; `none` is its own error. -/
def StoreCall.apply {β : Type} (s : Store) : StoreCall β → Option (β × Store)
  | .getFinding id => some (s.finding? id, s)
  | .getPrState id => some (s.prRow id, s)
  | .verdictAnchor id => some ((s.finding? id).bind Finding.anchor, s)
  | .findingsWithStatus status => some (s.findingsWithStatus status, s)
  | .listPendingHarvest => some (s.listPendingHarvest, s)
  | .listResumableJobs => some (s.listResumableJobs, s)
  | .listRunningJobs => some (s.listRunningJobs, s)
  | .getRepoById id => some ((s.repo? id).filter fun r => !r.deleted, s)
  | .resumeOriginJob id => some (s.resumeOriginJob id, s)
  | .resumeChainStats id => some (s.resumeChainStats id, s)
  | .ancestorTokens id => some (s.ancestorTokens id, s)
  | .pinnedSha id => some (s.pinnedSha id, s)
  | .jobBlocker id => some (s.jobBlocker id, s)
  | .jobFullHistory id => some (s.jobFullHistory id, s)
  | .chainLive origin => some (s.chainLive origin, s)
  | .createJob kind repoId findingId state resumedFrom =>
    match s.createJob kind repoId findingId state resumedFrom with
    | some (s', created) => some (some created, s')
    | none => some (none, s)
  | .failUnstartedJob id => some ((), s.failUnstartedJob id)
  | .setPinnedSha id sha => some ((), s.setPinnedSha id sha)
  | .markFullHistory id request => some ((), s.markFullHistory id request)
  | .completeJob id outcome => some ((), s.completeJob id outcome)
  | .failJob id => some ((), s.failJob id)
  | .suspendOrphan id sessionFile tokensNew => some ((), s.suspendOrphan id sessionFile tokensNew)
  | .orphanJob id => some ((), s.orphanJob id)
  | .retireSuspendedJob id state killedReason => some ((), s.retireJob id state killedReason)
  | .retireStrandedSuspensions =>
    some (s.retireStrandedSuspensions.2, s.retireStrandedSuspensions.1)
  | .blockFixJob findingId id reason => (s.blockFixJob findingId id reason).map fun s' => ((), s')
  | .setFindingStatus id status => some ((), s.setFindingStatus id status)
  | .setAnchoredVerdict id status reason anchor =>
    some ((), s.setAnchoredVerdict id status reason anchor)
  | .claimInProgress id source target =>
    some ((s.claimInProgress id source target).2, (s.claimInProgress id source target).1)
  | .setFindingPrOpen id prUrl => some ((), s.setFindingPrOpen id prUrl)
  | .setBudgetOverride id mode => some ((), s.setBudgetOverride id mode)
  | .updateFindingAnalysis id fields => some ((), s.updateFindingAnalysis id fields)
  | .setFixAttempts id attempts failure => some ((), s.setFixAttempts id attempts failure)
  | .setRecheckAttempts id attempts failure => some ((), s.setRecheckAttempts id attempts failure)
  | .setHarvestAttempts id attempts failure => some ((), s.setHarvestAttempts id attempts failure)
  | .markPrMerged id prNumber syncedAt => some ((), s.markPrMerged id prNumber syncedAt)
  | .markPrClosed id prNumber syncedAt => some ((), s.markPrClosed id prNumber syncedAt)
  | .syncPrOpen id d => some ((), s.syncPrOpen id d)
  | .markPrEngaged id lastEngagedActivityAt syncedAt fingerprint headSha =>
    some ((), s.markPrEngaged id lastEngagedActivityAt syncedAt fingerprint headSha)
  | .setAttentionAside id now => some ((), s.setAttentionAside id now)
  | .markPrHarvested id harvestedAt => some ((), s.markPrHarvested id harvestedAt)
  | .recordClosedHarvest id status reason anchor harvestedAt =>
    some ((s.recordClosedHarvest id status reason anchor harvestedAt).2,
      (s.recordClosedHarvest id status reason anchor harvestedAt).1)
  | .setPrNumber id prNumber => some ((), s.setPrNumber id prNumber)
  | .upsertFinding repoId row type =>
    some ((s.upsertFinding repoId row type).2, (s.upsertFinding repoId row type).1)
  | .reopenSuppressed id row => some ((s.reopenSuppressed id row).2, (s.reopenSuppressed id row).1)
  | .refreshDepUpdate id row => some ((s.refreshDepUpdate id row).2, (s.refreshDepUpdate id row).1)
  | .reconfirmAnchor id sha holdsWhile => some ((), s.reconfirmAnchor id sha holdsWhile)
  | .logEvent _ => some ((), s)
  | .supersedeUnproposedDepUpdates repoId proposed unchecked =>
    some ((s.supersedeUnproposedDepUpdates repoId proposed unchecked).2,
      (s.supersedeUnproposedDepUpdates repoId proposed unchecked).1)
  | .handOverQueuedDepUpdates repoId moves =>
    some ((s.handOverQueuedDepUpdates repoId moves).2, (s.handOverQueuedDepUpdates repoId moves).1)
  | .setLastHunt repoId sha => some ((), s.setLastHunt repoId sha)
  | .clearLastHuntSha repoId => some ((), s.clearLastHuntSha repoId)
  | .setLastFullHunt repoId now => some ((), s.setLastFullHunt repoId now)
  | .markFullHuntAttempted repoId request => some ((), s.markFullHuntAttempted repoId request)
  | .settleFullHuntRequest repoId job => some ((), s.settleFullHuntRequest repoId job)
  | .deletedRepoIds => some (s.deletedRepoIds, s)
  | .forgetDeletedRepo id => some ((), s.forgetDeletedRepo id)

namespace Store

/-- Whether the finding of this key is on record. -/
def onRecord (s : Store) (type : FindingType) (fingerprint : Text) : Bool :=
  s.findings.any fun f => f.type = type && f.report.fingerprint = fingerprint

/-- A repo's row is not dropped while a finding or a job references it. -/
def droppable (s : Store) (id : Nat) : Bool := !s.flagged id || !s.referenced id

end Store

/-- Whether the foreign keys let a statement through: a finding is filed for a repo on record, and
a repo's row goes only where nothing references it. Jobs look for their repo themselves. -/
@[simp] def StoreCall.keyed {β : Type} (s : Store) : StoreCall β → Bool
  | .upsertFinding repoId row type =>
    s.onRecord type row.fingerprint || (s.repo? repoId).isSome
  | .forgetDeletedRepo id => s.droppable id
  | _ => true

inductive TreeSpec
  | detached (at_ : Text)
  | branch (name at_ : Text)
  | prHead (headRef : Text)
  deriving DecidableEq

/-- Working trees, by the first job of their chain; their workers and what those leave; and
a clone's commits. -/
inductive TreeCall : Type → Type
  | isDir (origin : Nat) : TreeCall Bool
  | create (origin : Nat) (spec : TreeSpec) : TreeCall (Except Text Text)
  | release (origin : Nat) : TreeCall Unit
  | diffNames (repoId : Nat) (anchor : VerdictAnchor) (at_ : Text) : TreeCall GitDiff
  | history (repoId : Nat) (head : Text) : TreeCall History
  | prompt (job : Nat) (brief : Brief) : TreeCall (Except Text Unit)
  | runWorker (job origin : Nat) (session : Option Text) : TreeCall (Except Text RunResult)
  | ledgerUsage (origin : Nat) : TreeCall (Option (Text × Int))
  | findingsFile (outJob : Nat) : TreeCall FindingsFile

def TreeCall.reads : {β : Type} → TreeCall β → Bool
  | _, .isDir _ | _, .create _ _ | _, .release _ => false
  | _, _ => true

inductive Call : Type → Type 1
  | ask {β : Type} (q : Query β) : Call β
  | store {β : Type} (c : StoreCall β) : Call (Except Text β)
  | tree {β : Type} (c : TreeCall β) : Call β

structure Tree where
  origin : Nat
  spec : TreeSpec
  deriving DecidableEq

structure World where
  store : Store
  trees : List Tree

/-- What a call may answer, and what it leaves. Any statement may fail, one that a foreign key
refuses does, and then it changes nothing. -/
inductive CallStep : {β : Type} → Call β → World → β → World → Prop
  | ask {β : Type} (q : Query β) (w : World) (b : β) : CallStep (.ask q) w b w
  | store {β : Type} {c : StoreCall β} {w : World} {b : β} {s : Store} :
      c.apply w.store = some (b, s) → c.keyed w.store = true →
        CallStep (.store c) w (.ok b) { w with store := s }
  | storeError {β : Type} (c : StoreCall β) (w : World) (e : Text) :
      CallStep (.store c) w (.error e) w
  | isDir (origin : Nat) (w : World) :
      CallStep (.tree (.isDir origin)) w (w.trees.any fun t => t.origin = origin) w
  | create (origin : Nat) (spec : TreeSpec) (w : World) (sha : Text) :
      CallStep (.tree (.create origin spec)) w (.ok sha)
        { w with trees := { origin := origin, spec := spec } :: w.trees }
  | createError (origin : Nat) (spec : TreeSpec) (w : World) (e : Text) :
      CallStep (.tree (.create origin spec)) w (.error e) w
  | release (origin : Nat) (w : World) :
      CallStep (.tree (.release origin)) w ()
        { w with trees := w.trees.filter fun t => t.origin ≠ origin }
  | read {β : Type} (c : TreeCall β) (w : World) (b : β) :
      c.reads = true → CallStep (.tree c) w b w

def Call.Leaves (w w' : World) : {β : Type} → Call β → β → Prop
  | _, .ask _, _ => w' = w
  | _, .tree _, _ => w'.store = w.store
  | _, .store c, r =>
    (∃ b s', r = .ok b ∧ c.apply w.store = some (b, s') ∧ w' = { w with store := s' }) ∨
      (∃ e, r = .error e) ∧ w' = w

theorem CallStep.leaves {β : Type} {c : Call β} {w w' : World} {b : β}
    (h : CallStep c w b w') : c.Leaves w w' b := by
  cases h with
  | ask => rfl
  | store happly => exact Or.inl ⟨_, _, rfl, happly, rfl⟩
  | storeError => exact Or.inr ⟨⟨_, rfl⟩, rfl⟩
  | _ => rfl

def Call.Keyed (w : World) : {β : Type} → Call β → β → Prop
  | _, .store c, .ok _ => c.keyed w.store = true
  | _, _, _ => True

theorem CallStep.keyed {β : Type} {c : Call β} {w w' : World} {b : β}
    (h : CallStep c w b w') : c.Keyed w b := by
  cases h with
  | store happly hkeyed => exact hkeyed
  | _ => trivial

abbrev Act (α : Type) := Prog Call Text α

/-- `?` on a store call. -/
def sql {β : Type} (c : StoreCall β) : Act β := Prog.try_ (.store c)

def sqlResult {β : Type} (c : StoreCall β) : Act (Except Text β) := Prog.ask (.store c)

def ask {β : Type} (q : Query β) : Act β := Prog.ask (.ask q)

def tree {β : Type} (c : TreeCall β) : Act β := Prog.ask (.tree c)

/-- A query that may fail, with `?`. -/
def tryAsk {β : Type} (q : Query (Except Text β)) : Act β := Prog.try_ (.ask q)

def tryTree {β : Type} (c : TreeCall (Except Text β)) : Act β := Prog.try_ (.tree c)

/-- A step taken only where `b` holds. -/
def onlyIf (b : Bool) (p : Act Unit) : Act Unit := if b then p else pure ()

def bail {α : Type} (e : String) : Act α := .fail e.toList

def logWriteFailure {β : Type} (c : StoreCall β) : Act Unit :=
  .call (.store c) fun _ => .done ()

end Hunter
