import Hunter.Daemon
import Mathlib.Data.Set.Basic
set_option autoImplicit false

namespace Hunter
open Effect

def FindingStatus.isHeld : FindingStatus → Bool
  | fixing | rechecking | prOpen => true
  | _ => false

/-- What answers tell and no later call of the daemon has undone. -/
inductive Fact
  /-- Listed as pending its harvest, or with a harvest to continue. -/
  | harvestable (f : Nat)
  /-- At a status only the daemon moves it out of. -/
  | held (f : Nat) (status : FindingStatus)
  /-- Read as queued, and not moved by the daemon since. -/
  | queued (f : Nat)
  /-- Suspended, and continued by nothing. -/
  | offered (p : Nat) (kind : JobKind) (f : Option Nat)
  | placed (p repoId : Nat)
  /-- No fix of a blocked finding. -/
  | unheld (p : Nat)
  | continued (p : Nat)
  /-- Continued by nothing, and the only live fix of its finding, if it is one. -/
  | sole (p : Nat)
  /-- Below the give-up ceiling, or a fix that carries a blocker. -/
  | passed (p : Nat)
  /-- The tree of the fix job's chain is on its finding's branch. -/
  | rooted (p f : Nat)
  | agrees (f origin : Nat)
  | row (f : Nat) (finding : Finding)
  | running (p : Nat)
  | runningIn (jobs : List Nat)
  | dispatching
  /-- A chain's first job, its tree not made; for a fix, of which finding. -/
  | fresh (p : Nat) (fixOf : Option Nat)
  | engaged (p f : Nat)
  | anchored (f : Nat) (anchor : VerdictAnchor)
  /-- The repo's clone, at this commit, speaks for re-checking the finding's verdict. -/
  | lapsed (f repoId : Nat) (at_ : Text)
  /-- What the last entry found on record already is, and whose repo's it was filed as. -/
  | filed (f repoId : Nat)
  | urlless (f : Nat)
  | linked (f : Nat)
  | closedRow (f : Nat)
  /-- The status says merged, its row not yet. -/
  | merging (f : Nat)
  /-- The latest job is of this repo, and its findings go to the file of job `out`. -/
  | latest (p repoId out : Nat)
  /-- The latest job is a hunt of this repo. -/
  | hunting (p repoId : Nat)
  | watermark (repoId : Nat) (last : Option Text) (full : Option Int)
  /-- The repo's pending request, read before a job was created for it. -/
  | asked (repoId : Nat) (request : Int)
  /-- Whether the job's chain is marked as one over the complete history. -/
  | marked (p : Nat) (full : Bool)
  /-- The base git has for a first hunt, with a hunt of the repo to continue. -/
  | rebased (repoId : Nat) (head base : Text)
  /-- The tree of the chain this job starts was made so, at this commit. -/
  | treeAt (p : Nat) (spec : TreeSpec) (sha : Text)
  | pinned (p : Nat) (sha : Text)
  /-- Not a hunt whose worker was never told its range. -/
  | briefed (p : Nat)
  /-- The hunt's worker was told to review this range. -/
  | scoped (p : Nat) (range : DiffRange)
  /-- No worker was run for the job, and nothing continues it; what it continues. -/
  | unrun (p : Nat) (resumedFrom : Option Nat)
  | ran (p : Nat) (rr : RunResult)
  /-- The session on the row of a job that has ended. -/
  | kept (p : Nat) (session : Text)
  | finished (p : Nat)
  | output (n : Nat) (file : FindingsFile)
  | origin (p first : Nat)
  /-- The transcript and the usage of a chain's sessions. -/
  | ledger (first : Nat) (file : Text) (tokens : Int)
  | spent (p : Nat) (tokens : Int)
  | oneShot (f : Nat)

abbrev Memory := Set Fact

def fixOf (kind : JobKind) (findingId : Option Nat) : Option Nat :=
  if kind = .finding .fix then findingId else none

namespace Fact

/-- Facts about the branch of finding `f`. -/
def onBranch (f : Nat) : Fact → Bool
  | rooted _ g | agrees g _ | row g _ => g = f
  | _ => false

/-- Facts about the status of finding `f`. -/
def onStatus (f : Nat) : Fact → Bool
  | held g _ | queued g => g = f
  | _ => false

def isHeld (f : Nat) : Fact → Bool
  | held g _ => g = f
  | _ => false

def isOffer : Fact → Bool
  | offered _ _ _ => true
  | _ => false

/-- What the end of job `p` undoes: that it is offered, or done. -/
def onEnd (p : Nat) : Fact → Bool
  | offered q _ _ | finished q => q = p
  | _ => false

def onCreate : Fact → Bool
  | offered _ _ _ | passed _ | fresh _ _ | runningIn _ | engaged _ _ | sole _ | latest _ _ _
  | hunting _ _ | output _ _ | unrun _ _ => true
  | _ => false

def onHold : Fact → Bool
  | offered _ _ _ | unheld _ | sole _ | finished _ => true
  | _ => false

/-- Facts about the anchor of finding `f`'s verdict. -/
def onAnchor (f : Nat) : Fact → Bool
  | anchored g _ | lapsed g _ _ => g = f
  | _ => false

def onSpend : Fact → Bool
  | passed _ | spent _ _ => true
  | _ => false

/-- Facts about the watermark of repo `r`. -/
def onWatermark (r : Nat) : Fact → Bool
  | watermark q _ _ => q = r
  | _ => false

def isAsked (r : Nat) : Fact → Bool
  | asked q _ => q = r
  | _ => false

def onRun : Fact → Bool
  | ledger _ _ _ | unrun _ _ | ran _ _ => true
  | _ => false

def isOutput : Fact → Bool
  | output _ _ => true
  | _ => false

def isPinned (p : Nat) : Fact → Bool
  | pinned q _ => q = p
  | _ => false

def isMarked (p : Nat) : Fact → Bool
  | marked q _ => q = p
  | _ => false

def isOneShot : Fact → Bool
  | oneShot _ => true
  | _ => false

def isLapsed : Fact → Bool
  | lapsed _ _ _ => true
  | _ => false

def isFiled : Fact → Bool
  | filed _ _ => true
  | _ => false

def isTree : Fact → Bool
  | rooted _ _ | agrees _ _ | fresh _ _ | treeAt _ _ _ | pinned _ _ => true
  | _ => false

end Fact

def StoreCall.forgets : {β : Type} → StoreCall β → β → Fact → Prop
  | _, .createJob _ _ _ _ _, b, x => b.isSome ∧ x.onCreate
  | _, .completeJob id _, _, x | _, .suspendOrphan id _ _, _, x => x = .running id ∨ x.onSpend
  | _, .failUnstartedJob id, _, x | _, .orphanJob id, _, x => x = .running id
  | _, .failJob id, _, x | _, .retireSuspendedJob id _ _, _, x => x = .running id ∨ x.onEnd id
  | _, .retireStrandedSuspensions, _, x => x.isOffer
  | _, .blockFixJob f id _, _, x => x = .running id ∨ x.onHold ∨ x.onStatus f
  | _, .setFindingStatus f _, _, x => x.onStatus f
  | _, .setAnchoredVerdict f _ _ _, _, x => x.onStatus f ∨ x.onAnchor f
  | _, .claimInProgress f source _, b, x =>
    b = true ∧ (x.isHeld f ∨ source = .queued ∧ x = .queued f)
  | _, .setFindingPrOpen f _, _, x =>
    x.onStatus f ∨ x = .urlless f ∨ x = .linked f
  | _, .markPrHarvested f _, _, x => x = .harvestable f
  | _, .recordClosedHarvest f _ _ _ _, _, x => x = .harvestable f ∨ x.onAnchor f
  | _, .updateFindingAnalysis f _, _, x | _, .refreshDepUpdate f _, _, x => x.onBranch f
  | _, .reopenSuppressed f _, _, x => x.onBranch f ∨ x.onAnchor f
  | _, .reconfirmAnchor f _ _, _, x => x.onAnchor f
  | _, .markPrMerged f _ _, _, x => x = .merging f ∨ x = .closedRow f
  | _, .syncPrOpen f _, _, x => x = .closedRow f
  | _, .setLastHunt r _, _, x | _, .clearLastHuntSha r, _, x | _, .setLastFullHunt r _, _, x =>
    x.onWatermark r
  | _, .settleFullHuntRequest r _, _, x => x.isAsked r
  | _, .setPinnedSha id _, _, x => x.isPinned id
  | _, .markFullHistory id _, _, x => x.isMarked id
  | _, .upsertFinding _ _ _, b, x => b.2 = false ∧ x.isFiled
  | _, .handOverQueuedDepUpdates _ _, _, x => x.isOneShot
  | _, _, _, _ => False

/-- Even a failed write ends the wait for it. -/
def StoreCall.forgetsFailed : {β : Type} → StoreCall β → Fact → Prop
  | _, .markPrMerged f _ _, x => x = .merging f
  | _, _, _ => False

def FindingJobKind.due (f : Nat) : FindingJobKind → Fact
  | .fix => .queued f
  | .recheck => .held f .rechecking
  | .engage => .held f .prOpen
  | .harvest => .harvestable f

/-- What one row of `list_resumable_jobs` tells. -/
def offerTells (p : Nat) (kind : JobKind) (repoId : Nat) (findingId : Option Nat)
    (session : Option Text) (x : Fact) : Prop :=
  x = .offered p kind findingId ∨ x = .placed p repoId ∨ x = .unheld p ∨
    (∃ file, session = some file ∧ x = .kept p file) ∨
    ∃ k f, kind = .finding k ∧ findingId = some f ∧
      x = if k = .fix then .rooted p f else k.due f

def Finding.tells (id : Nat) (f : Finding) (status : FindingStatus) (x : Fact) : Prop :=
  (status.isHeld ∧ x = .held id status) ∨ (status = .queued ∧ x = .queued id) ∨
    (status = .prOpen ∧ x = if f.url.isSome then .linked id else .urlless id)

def Fact.isListed : Fact → Bool
  | harvestable _ | held _ _ | queued _ | offered _ _ _ | placed _ _ | unheld _ | kept _ _
  | rooted _ _ | urlless _ | linked _ => true
  | _ => false

theorem FindingJobKind.due_listed {f : Nat} (kind : FindingJobKind) :
    (kind.due f).isListed = true := by
  cases kind <;> rfl

theorem offerTells_listed {p repoId : Nat} {kind : JobKind} {findingId : Option Nat}
    {session : Option Text} {x : Fact} (h : offerTells p kind repoId findingId session x) :
    x.isListed = true := by
  obtain rfl | rfl | rfl | ⟨file, -, rfl⟩ | ⟨k, f, -, -, rfl⟩ := h
  · rfl
  · rfl
  · rfl
  · rfl
  · split
    · rfl
    · exact k.due_listed

theorem tells_listed {id : Nat} {f : Finding} {status : FindingStatus} {x : Fact}
    (h : f.tells id status x) : x.isListed = true := by
  obtain ⟨-, rfl⟩ | ⟨-, rfl⟩ | ⟨-, rfl⟩ := h
  · rfl
  · rfl
  · split <;> rfl

/-- The job whose file the findings of a job go to that goes on with `resumedFrom`. -/
def Memory.goesTo (a : Memory) (id : Nat) (resumedFrom : Option Nat) (out : Nat) : Prop :=
  match resumedFrom with
  | none => out = id
  | some p => Fact.origin p out ∈ a

def StoreCall.learns (a : Memory) : {β : Type} → StoreCall β → β → Fact → Prop
  | _, .getFinding f, b, x => ∃ finding, b = some finding ∧
      (x = .row f finding ∨ finding.status.isHeld ∧ x = .held f finding.status ∨
        finding.budgetOverride = some .once ∧ x = .oneShot f)
  | _, .findingsWithStatus status, rows, x => ∃ r ∈ rows, r.val.tells r.id status x
  | _, .listPendingHarvest, rows, x => ∃ r ∈ rows, x = .harvestable r.id
  | _, .listResumableJobs, rows, x =>
    ∃ r ∈ rows, offerTells r.id r.val.kind r.val.repoId r.val.findingId r.val.sessionFile x
  | _, .listRunningJobs, rows, x =>
    (∃ r ∈ rows, x = .running r.id) ∨ x = .runningIn (rows.map Row.id)
  | _, .orphanJob id, _, x =>
    ∃ jobs, Fact.runningIn jobs ∈ a ∧ x = .runningIn (jobs.filter (· ≠ id))
  | _, .retireSuspendedJob id _ _, _, x => (∃ kind f, Fact.offered id kind f ∈ a) ∧ x = .sole id
  | _, .verdictAnchor f, b, x => ∃ anchor, b = some anchor ∧ x = .anchored f anchor
  | _, .resumeChainStats p, stats, x => stats.tooMany = false ∧ x = .passed p
  | _, .jobBlocker p, b, x =>
    b.isSome ∧ (∃ f, Fact.offered p (.finding .fix) f ∈ a) ∧ x = .passed p
  | _, .resumeOriginJob p, origin, x =>
    (∃ f, Fact.rooted p f ∈ a ∧ x = .agrees f origin) ∨
      (Fact.running p ∈ a ∨ ∃ kind f, Fact.offered p kind f ∈ a) ∧ x = .origin p origin
  | _, .ancestorTokens p, tokens, x => x = .spent p tokens
  | _, .pinnedSha p, sha, x => ∃ commit, sha = some commit ∧ x = .pinned p commit
  | _, .setPinnedSha p sha, _, x => x = .pinned p sha
  | _, .jobFullHistory p, full, x =>
    (∃ kind f, Fact.offered p kind f ∈ a) ∧ x = .marked p full
  | _, .markFullHistory p _, _, x => x = .marked p true
  | _, .completeJob p outcome, _, x => outcome.state = .done ∧ x = .finished p
  | _, .getRepoById r, b, x => ∃ repo, b = some repo ∧
      (x = .watermark r repo.lastHuntSha repo.lastFullHuntAt ∨
        Fact.runningIn [] ∈ a ∧ ∃ v, repo.fullHuntRequestedAt = some v ∧ x = .asked r v)
  | _, .clearLastHuntSha r, _, x =>
    ∃ last full, Fact.watermark r last full ∈ a ∧ x = .watermark r none full
  | _, .createJob kind repoId findingId _ resumedFrom, b, x => ∃ created, b = some created ∧
      (x = .running created.id ∨ x = .unheld created.id ∨ x = .sole created.id ∨
        (∃ jobs, Fact.runningIn jobs ∈ a ∧ x = .runningIn (created.id :: jobs)) ∨
        (∃ f, kind = .finding .engage ∧ findingId = some f ∧ x = .engaged created.id f) ∨
        (∃ p, resumedFrom = some p ∧ x = .continued p) ∨
        resumedFrom = none ∧ x = .fresh created.id (fixOf kind findingId) ∨
        (∃ f, fixOf kind findingId = some f ∧ x = .rooted created.id f ∧
          ∀ p, resumedFrom = some p → Fact.rooted p f ∈ a) ∨
        (∃ out, a.goesTo created.id resumedFrom out ∧ x = .latest created.id repoId out) ∨
        kind = .repo .hunt ∧ x = .hunting created.id repoId ∨
        (kind ≠ .repo .hunt ∨ resumedFrom.isSome) ∧ x = .briefed created.id ∨
        resumedFrom = none ∧ x = .marked created.id false ∨
        x = .unrun created.id resumedFrom ∨
        ∃ p, resumedFrom = some p ∧
          ((∃ sha, Fact.pinned p sha ∈ a ∧ x = .pinned created.id sha) ∨
            ∃ full, Fact.marked p full ∈ a ∧ x = .marked created.id full))
  | _, .claimInProgress f source target, b, x =>
    b = true ∧ source = .queued ∧ target = .fixing ∧ x = .held f .fixing
  | _, .setFindingStatus f status, _, x => status = .merged ∧ x = .merging f
  | _, .markPrClosed f _ _, _, x => x = .closedRow f
  | _, .upsertFinding repoId _ _, b, x => b.2 = false ∧ x = .filed b.1 repoId
  | _, _, _, _ => False

def TreeCall.forgets : {β : Type} → TreeCall β → β → Fact → Prop
  | _, .create _ _, b, x => b.isOk ∧ x.isTree
  | _, .diffNames _ _ _, _, x => x.isLapsed
  | _, .runWorker _ _ _, _, x => x.onRun
  | _, .findingsFile _, _, x => x.isOutput
  | _, _, _, _ => False

def TreeCall.learns (a : Memory) : {β : Type} → TreeCall β → β → Fact → Prop
  | _, .create id spec, b, x => ∃ sha, b = .ok sha ∧
      (x = .treeAt id spec sha ∨
        ∃ f, Fact.fresh id (some f) ∈ a ∧ (x = .rooted id f ∨ x = .agrees f id))
  | _, .diffNames repoId anchor at_, diff, x =>
    (anchor.changed diff).isSome ∧ ∃ f, Fact.anchored f anchor ∈ a ∧ x = .lapsed f repoId at_
  | _, .history r head, printed, x =>
    (∃ p g, Fact.offered p (.repo .hunt) g ∈ a ∧ Fact.placed p r ∈ a) ∧
      x = .rebased r head (printed.base head)
  | _, .prompt p (.hunt range), b, x => b.isOk ∧ (x = .briefed p ∨ x = .scoped p range)
  | _, .runWorker p _ _, b, x => ∃ rr, b = .ok rr ∧ x = .ran p rr
  | _, .ledgerUsage first, b, x =>
    ∃ file tokens, b = some (file, tokens) ∧ x = .ledger first file tokens
  | _, .findingsFile n, file, x => x = .output n file
  | _, _, _, _ => False

def Fact.isTold : Fact → Bool
  | treeAt _ _ _ | rooted _ _ | agrees _ _ | lapsed _ _ _ | rebased _ _ _ | briefed _ | .scoped _ _
  | ran _ _ | ledger _ _ _ | output _ _ => true
  | _ => false

theorem TreeCall.learns_told {β : Type} {a : Memory} {c : TreeCall β} {b : β} {x : Fact}
    (h : c.learns a b x) : x.isTold = true := by
  cases c with
  | create =>
    obtain ⟨sha, -, rfl | ⟨f, -, rfl | rfl⟩⟩ := h <;> rfl
  | diffNames =>
    obtain ⟨-, f, -, rfl⟩ := h
    rfl
  | history =>
    obtain ⟨-, rfl⟩ := h
    rfl
  | prompt id brief =>
    cases brief with
    | hunt range => obtain ⟨-, rfl | rfl⟩ := h <;> rfl
    | _ => exact h.elim
  | runWorker =>
    obtain ⟨rr, -, rfl⟩ := h
    rfl
  | ledgerUsage =>
    obtain ⟨file, tokens, -, rfl⟩ := h
    rfl
  | findingsFile =>
    cases h
    rfl
  | _ => exact h.elim

def StoreCall.forgetsAnswer {β : Type} (c : StoreCall β) (b : Except Text β) (x : Fact) : Prop :=
  match b with
  | .ok b => c.forgets b x
  | .error _ => c.forgetsFailed x

def StoreCall.learnsAnswer {β : Type} (a : Memory) (c : StoreCall β) (b : Except Text β)
    (x : Fact) : Prop :=
  match b with
  | .ok b => c.learns a b x
  | .error _ => False

def StoreCall.canAnswer {β : Type} (c : StoreCall β) (b : Except Text β) : Prop :=
  match b with
  | .ok b => ∃ s s', c.apply s = some (b, s')
  | .error _ => True

def Call.forgets : {β : Type} → Call β → β → Fact → Prop
  | _, .store c, b, x => c.forgetsAnswer b x
  | _, .tree c, b, x => c.forgets b x
  | _, .ask _, _, _ => False

def Call.learns (a : Memory) : {β : Type} → Call β → β → Fact → Prop
  | _, .store c, b, x => c.learnsAnswer a b x
  | _, .tree c, b, x => c.learns a b x
  | _, .ask _, _, _ => False

def Memory.next {β : Type} (a : Memory) (c : Call β) (b : β) : Memory :=
  {x | x ∈ a ∧ ¬ c.forgets b x ∨ c.learns a b x}

def Memory.mayMove (a : Memory) (f : Nat) : FindingStatus → Prop
  | .new => Fact.held f .rechecking ∈ a
  | .queued => Fact.held f .fixing ∈ a ∨ Fact.held f .prOpen ∈ a ∧ Fact.urlless f ∈ a
  | .merged => Fact.held f .prOpen ∈ a
  | _ => False

def Memory.mayContinue (a : Memory) (kind : JobKind) (repoId : Nat) (findingId : Option Nat)
    (p : Nat) : Prop :=
  ∃ g, Fact.offered p kind g ∈ a ∧ Fact.passed p ∈ a ∧
    match kind with
    | .repo _ => Fact.placed p repoId ∈ a
    | .finding _ => g = findingId

/-- A harvest may go on with the session of an engage of its finding. -/
def Memory.handsOver (a : Memory) (kind : JobKind) (findingId : Option Nat) (p : Nat) : Prop :=
  kind = .finding .harvest ∧
    ∃ f, findingId = some f ∧ Fact.engaged p f ∈ a ∧ Fact.runningIn [p] ∈ a

/-- What a job of a finding kind needs to be known of its finding. -/
def Memory.mayWork (a : Memory) (f : Nat) (resumedFrom : Option Nat) : FindingJobKind → Prop
  | .fix => Fact.held f .fixing ∈ a ∧ ∀ p, resumedFrom = some p → Fact.rooted p f ∈ a
  | .harvest => Fact.harvestable f ∈ a ∨ ∃ p, resumedFrom = some p ∧ Fact.engaged p f ∈ a
  | _ => True

structure Memory.MayCreate (a : Memory) (kind : JobKind) (repoId : Nat)
    (findingId resumedFrom : Option Nat) : Prop where
  dispatching : Fact.dispatching ∈ a
  idle : Fact.runningIn [] ∈ a ∨ ∃ p, resumedFrom = some p ∧ a.handsOver kind findingId p
  continues : ∀ p, resumedFrom = some p →
    a.mayContinue kind repoId findingId p ∨ a.handsOver kind findingId p
  work : match kind with
    | .repo _ => findingId = none
    | .finding k => ∃ f finding, findingId = some f ∧ Fact.row f finding ∈ a ∧
        finding.repoId = repoId ∧ a.mayWork f resumedFrom k

/-- What a hunt's worker may be told to review: what came after the watermark, or everything. -/
def Memory.mayReview (a : Memory) (p : Nat) (range : DiffRange) : Prop :=
  ∃ r last full, Fact.hunting p r ∈ a ∧ Fact.watermark r last full ∈ a ∧
    (∃ sha, Fact.treeAt p (.detached range.head) sha ∈ a) ∧
    (range.fullScope = false → Fact.marked p false ∈ a ∧ (last = some range.base ∨ last = none))

def Memory.resumesScope (a : Memory) (p : Nat) (range : DiffRange) : Prop :=
  ∃ r last full marked, Fact.hunting p r ∈ a ∧ Fact.watermark r last full ∈ a ∧
    Fact.marked p marked ∈ a ∧
    match last with
    | some l => range.base = l
    | none =>
      if marked || full.isSome then range.base = emptyTree
      else Fact.rebased r range.head range.base ∈ a

/-- A session a worker may be told to resume: the one on the row its job continues, or the one
the worker of that job has just ended with. -/
def Memory.mayResume (a : Memory) (p : Nat) (session : Text) : Prop :=
  Fact.kept p session ∈ a ∨ ∃ rr, Fact.ran p rr ∈ a ∧ rr.sessionFile = some session

/-- A hunt of the repo is done, its findings read without an invalid one. -/
def Memory.hasReviewed (a : Memory) (r : Nat) (sha : Text) : Prop :=
  ∃ p out list, Fact.hunting p r ∈ a ∧ Fact.finished p ∈ a ∧ Fact.pinned p sha ∈ a ∧
    Fact.latest p r out ∈ a ∧ Fact.output out (.entries list) ∈ a ∧ none ∉ list

/-- The finding was filed again, and its verdict has lapsed where the job scanned. -/
def Memory.mayReopen (a : Memory) (f : Nat) : Prop :=
  ∃ r at_ p out, Fact.filed f r ∈ a ∧ Fact.lapsed f r at_ ∈ a ∧ Fact.latest p r out ∈ a ∧
    Fact.pinned p at_ ∈ a

def anchorsFairly (status : FindingStatus) (anchor : Option VerdictAnchor) : Prop :=
  (anchor.isSome → status = .rejected) ∧ status ≠ .blocked

def StoreCall.allowed (a : Memory) : {β : Type} → StoreCall β → Prop
  | _, .createJob kind repoId findingId state resumedFrom =>
    state = .running ∧ a.MayCreate kind repoId findingId resumedFrom
  | _, .completeJob id outcome => Fact.running id ∈ a ∧
      ∃ rr, Fact.ran id rr ∈ a ∧ outcome = rr.outcome
  | _, .suspendOrphan id file tokens => Fact.running id ∈ a ∧ 0 < tokens ∧
      ∃ first total before, Fact.origin id first ∈ a ∧ Fact.ledger first file total ∈ a ∧
        Fact.spent id before ∈ a ∧ tokens = total - before
  | _, .failUnstartedJob id | _, .orphanJob id => Fact.running id ∈ a
  | _, .setPinnedSha id sha => ∃ spec, Fact.treeAt id spec sha ∈ a
  | _, .markFullHistory id request => ∃ r, Fact.hunting id r ∈ a ∧ Fact.fresh id none ∈ a ∧
      ∀ v, request = some v → Fact.asked r v ∈ a
  | _, .markFullHuntAttempted r v => Fact.asked r v ∈ a
  | _, .setLastHunt r sha => (∃ full, Fact.watermark r (some sha) full ∈ a) ∨ a.hasReviewed r sha
  | _, .setLastFullHunt r _ => ∃ p, Fact.hunting p r ∈ a ∧ Fact.finished p ∈ a
  | _, .settleFullHuntRequest r p => Fact.hunting p r ∈ a ∧ Fact.finished p ∈ a
  | _, .failJob id => ∃ f, Fact.engaged id f ∈ a
  | _, .retireSuspendedJob id state why =>
    (state = .killed ∨ state = .failed) ∧ why ≠ some "cap".toList ∧
      (Fact.unheld id ∈ a ∨ Fact.continued id ∈ a)
  | _, .blockFixJob f id _ =>
    Fact.rooted id f ∈ a ∧ (Fact.held f .fixing ∈ a ∨ Fact.queued f ∈ a) ∧
      (Fact.sole id ∈ a ∨ ∃ g, Fact.offered id (.finding .fix) g ∈ a)
  | _, .setFindingStatus f status => a.mayMove f status
  | _, .setAnchoredVerdict f status _ anchor =>
    anchorsFairly status anchor ∧ (Fact.held f .rechecking ∈ a ∨ Fact.held f .fixing ∈ a ∨
      status = .closed ∧ Fact.held f .prOpen ∈ a ∧ Fact.closedRow f ∈ a)
  | _, .recordClosedHarvest _ status _ anchor _ => anchorsFairly status anchor
  | _, .reopenSuppressed f _ => a.mayReopen f
  | _, .setBudgetOverride f mode => mode = none ∧ Fact.oneShot f ∈ a
  | _, .claimInProgress _ source target =>
    source = .queued ∧ target = .fixing ∨ source = .fixing ∧ target = .queued
  | _, .setFindingPrOpen f _ => Fact.held f .fixing ∈ a
  | _, .markPrMerged f _ _ => Fact.merging f ∈ a ∨ Fact.held f .prOpen ∈ a
  | _, .markPrClosed f _ _ | _, .syncPrOpen f _ => Fact.held f .prOpen ∈ a
  | _, _ => True

def TreeCall.allowed (a : Memory) : {β : Type} → TreeCall β → Prop
  | _, .create id spec => ∃ of, Fact.fresh id of ∈ a ∧
      ∀ f, of = some f → ∃ finding commit,
        Fact.row f finding ∈ a ∧ spec = .branch (fixBranch f finding) commit
  | _, .prompt p (.hunt range) => a.mayReview p range
  | _, .runWorker p _ session => Fact.running p ∈ a ∧ Fact.briefed p ∈ a ∧
      ∃ resumedFrom, Fact.unrun p resumedFrom ∈ a ∧
        ∀ file, session = some file → ∃ q, resumedFrom = some q ∧ a.mayResume q file
  | _, _ => True

def Query.allowed (a : Memory) : {β : Type} → Query β → Prop
  | _, .createPr _ origin branch => ∃ f finding,
      Fact.agrees f origin ∈ a ∧ Fact.row f finding ∈ a ∧ branch = fixBranch f finding
  | _, .viewPrSync f _ => Fact.linked f ∈ a
  | _, .huntSummary p _ range => Fact.scoped p range ∈ a ∨ a.resumesScope p range
  | _, _ => True

def Call.allowed (a : Memory) : {β : Type} → Call β → Prop
  | _, .ask q => q.allowed a
  | _, .store c => c.allowed a
  | _, .tree c => c.allowed a

def Call.answers : {β : Type} → Call β → β → Prop
  | _, .store c, b => c.canAnswer b
  | _, _, _ => True

def protocol : Protocol Call Memory where
  allows a c := c.allowed a
  answers c b := c.answers b
  next a c b := a.next c b

def Candidate.known : Candidate → Memory
  | .repo _ _ => ∅
  | .finding kind f => {kind.due f}
  | .resume plan => {x |
      offerTells plan.predecessorId plan.kind plan.repoId plan.findingId
        (some plan.sessionFile) x ∨
        x = .passed plan.predecessorId ∨ x = .pinned plan.predecessorId plan.pinnedSha ∨
        x = .origin plan.predecessorId plan.originJobId ∨
        ∃ f, plan.kind = .finding .fix ∧ plan.findingId = some f ∧ x = .agrees f plan.originJobId}

def Phase.known : Phase → Memory
  | .startup | .reconcile => ∅
  | .cycle | .select => {.runningIn []}
  | .dispatch candidate => {x | x = .dispatching ∨ x = .runningIn [] ∨ x ∈ candidate.known}

def Fact.isHandedOver : Fact → Bool
  | dispatching | runningIn _ | passed _ | pinned _ _ | origin _ _ | agrees _ _ => true
  | x => x.isListed

theorem Fact.handedOver_of_listed {x : Fact} (h : x.isListed = true) : x.isHandedOver = true := by
  cases x <;> first | rfl | cases h

theorem Candidate.known_handedOver {candidate : Candidate} {x : Fact} (h : x ∈ candidate.known) :
    x.isHandedOver = true := by
  cases candidate with
  | repo => exact h.elim
  | finding kind f =>
    cases h
    exact Fact.handedOver_of_listed kind.due_listed
  | resume plan =>
    obtain h | rfl | rfl | rfl | ⟨f, -, -, rfl⟩ := h
    · exact Fact.handedOver_of_listed (offerTells_listed h)
    · rfl
    · rfl
    · rfl
    · rfl

theorem Phase.known_handedOver {phase : Phase} {x : Fact} (h : x ∈ phase.known) :
    x.isHandedOver = true := by
  cases phase with
  | startup | reconcile => exact h.elim
  | cycle | select =>
    cases h
    rfl
  | dispatch candidate =>
    obtain rfl | rfl | h := h
    · rfl
    · rfl
    · exact Candidate.known_handedOver h

end Hunter
