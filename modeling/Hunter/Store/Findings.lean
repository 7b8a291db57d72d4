import Hunter.Store.Tables
import Mathlib.Data.List.Sort
set_option autoImplicit false

namespace Hunter

/-- The streak after a failure: one more of the same, else the first of its own. -/
def streakAfter (lastFailure : Option Text) (attempts : Nat) (failure : Text) : Nat :=
  if lastFailure = some failure then attempts + 1 else 1

structure FindingAnalysisUpdate where
  summary : Option Text
  detail : Option Text
  confidence : Option ℚ
  severity : Option Severity

structure SyncPrData where
  prNumber : Int
  headRef : Option Text
  headSha : Option Text
  lastActivityAt : Int
  lastEngagedActivityAt : Int
  needsAttention : Option Text
  attentionFingerprint : Option Text
  attentionSince : Option (Option Int)
  clearAddressed : Bool
  syncedAt : Int

structure ProposedMove where
  fingerprint : Text
  unit : Text
  package : Text
  major : Bool
  deriving DecidableEq

def depUnproposedReason : Text := "no longer proposed by the dependency scan".toList

/-- The columns a repeated dependency scan may rewrite. -/
def FindingInsert.refresh (row old : FindingInsert) : FindingInsert :=
  { old with
    file := row.file
    severity := row.severity
    confidence := row.confidence
    summary := row.summary
    detail := row.detail
    ecosystem := row.ecosystem
    package := row.package
    currentVersion := row.currentVersion
    latestVersion := row.latestVersion
    updateType := row.updateType
    securityAdvisory := row.securityAdvisory }

/-- The columns a reopening rewrites. -/
def FindingInsert.reopen (row old : FindingInsert) : FindingInsert :=
  { old with
    symbol := row.symbol
    line := row.line
    severity := row.severity
    confidence := row.confidence
    summary := row.summary
    detail := row.detail
    evidencePlan := row.evidencePlan }

def FindingAnalysisUpdate.apply (fields : FindingAnalysisUpdate) (old : FindingInsert) :
    FindingInsert :=
  { old with
    summary := fields.summary.getD old.summary
    detail := fields.detail.or old.detail
    confidence := fields.confidence.getD old.confidence
    severity := fields.severity.getD old.severity }

namespace PrState

/-- Every upsert's rule for the harvest bookkeeping: another PR number clears it. -/
def forNumber (p : PrState) (prNumber : Int) : PrState :=
  if p.prNumber.any (· ≠ prNumber) then
    { p with
      prNumber := some prNumber
      harvestedAt := none
      harvestAttempts := 0
      lastHarvestFailure := none }
  else { p with prNumber := some prNumber }

/-- `mark_pr_merged` and `mark_pr_closed`. -/
def ended (p : PrState) (state : PrPhase) (prNumber syncedAt : Int) : PrState :=
  { p.forNumber prNumber with
    state := some state
    needsAttention := none
    syncedAt := some syncedAt }

def synced (p : PrState) (d : SyncPrData) : PrState :=
  let base := { p.forNumber d.prNumber with
    state := some .opened
    headRef := d.headRef
    headSha := d.headSha
    lastActivityAt := some d.lastActivityAt
    lastEngagedActivityAt := some d.lastEngagedActivityAt
    needsAttention := d.needsAttention
    attentionFingerprint := d.attentionFingerprint
    attentionSince := d.attentionSince.getD p.attentionSince
    syncedAt := some d.syncedAt }
  if d.clearAddressed then
    { base with addressedFingerprint := none, addressedHeadSha := none }
  else base

def engaged (lastEngagedActivityAt syncedAt : Int) (fingerprint headSha : Option Text)
    (p : PrState) : PrState :=
  { p with
    lastEngagedActivityAt := some lastEngagedActivityAt
    syncedAt := some syncedAt
    addressedFingerprint := fingerprint
    addressedHeadSha := headSha }

def setAside (now : Int) (p : PrState) : PrState :=
  { p with
    lastEngagedActivityAt := p.lastActivityAt.or (some now)
    addressedFingerprint := p.attentionFingerprint
    addressedHeadSha := p.headSha
    needsAttention := none
    attentionSince := none }

end PrState

namespace Finding

def url (f : Finding) : Option Text := f.prUrl.filter fun url => !url.isEmpty

def setVerdict (status : FindingStatus) (reason : Text) (anchor : Option VerdictAnchor)
    (f : Finding) : Finding :=
  { f with status := status, verdictReason := some reason, anchor := anchor }

/-- Upsert of the finding's `pr_state` row. -/
def upsertPr (u : PrState → PrState) (f : Finding) : Finding :=
  { f with prState := some (u (f.prState.getD {})) }

/-- Update of the finding's `pr_state` row, if it has one. -/
def updatePr (u : PrState → PrState) (f : Finding) : Finding :=
  { f with prState := f.prState.map u }

/-- Whether `refresh_dep_update` selects the row: a status no worker has taken up. -/
def refreshable (f : Finding) : Bool :=
  f.type = .depUpdate
    && (f.status = .new || f.status = .queued
      || f.status = .superseded && f.verdictReason = some depUnproposedReason)

def refreshDep (row : FindingInsert) (f : Finding) : Finding :=
  { f with
    report := row.refresh f.report
    status := if f.status = .superseded then .new else f.status
    verdictReason := if f.status = .superseded then none else f.verdictReason }

def strongerOverride (own other : Option BudgetOverride) : Option BudgetOverride :=
  if own = some .exempt ∨ other = some .exempt then some .exempt else own.or other

theorem strongerOverride_own {own other : Option BudgetOverride} :
    (own.isSome → (strongerOverride own other).isSome) ∧
      (own = some .exempt → strongerOverride own other = some .exempt) := by
  unfold strongerOverride
  split
  · exact ⟨fun _ => rfl, fun _ => rfl⟩
  · rename_i hneither
    refine ⟨fun h => ?_, fun h => absurd (Or.inl h) hneither⟩
    cases own with
    | none => cases h
    | some mode => rfl

end Finding

namespace Store
variable (s : Store)

def setFindingStatus (id : Nat) (status : FindingStatus) : Store :=
  s.modifyFinding id fun f => { f with status := status }

def setAnchoredVerdict (id : Nat) (status : FindingStatus) (reason : Text)
    (anchor : Option VerdictAnchor) : Store :=
  s.modifyFinding id (Finding.setVerdict status reason anchor)

def setVerdictIf (id : Nat) (source status : FindingStatus) (reason : Text) : Store × Bool :=
  s.updateFindingIf id (fun f => f.status = source) (Finding.setVerdict status reason none)

def claimInProgress (id : Nat) (source target : FindingStatus) : Store × Bool :=
  s.updateFindingIf id (fun f => f.status = source) fun f => { f with status := target }

def setFindingPrOpen (id : Nat) (prUrl : Text) : Store :=
  s.modifyFinding id fun f => { f with status := .prOpen, prUrl := some prUrl }

def setBudgetOverride (id : Nat) (mode : Option BudgetOverride) : Store :=
  s.modifyFinding id fun f => { f with budgetOverride := mode }

def updateFindingAnalysis (id : Nat) (fields : FindingAnalysisUpdate) : Store :=
  s.modifyFinding id fun f => { f with report := fields.apply f.report }

def setFixAttempts (id : Nat) (attempts : Nat) (failure : Option Text) : Store :=
  s.modifyFinding id fun f => { f with fixAttempts := attempts, lastFixFailure := failure }

def setRecheckAttempts (id : Nat) (attempts : Nat) (failure : Option Text) : Store :=
  s.modifyFinding id fun f =>
    { f with recheckAttempts := attempts, lastRecheckFailure := failure }

def setHarvestAttempts (id : Nat) (attempts : Nat) (failure : Option Text) : Store :=
  s.modifyFinding id (Finding.updatePr fun p =>
    { p with harvestAttempts := attempts, lastHarvestFailure := failure })

/-- The finding's `pr_state` row. -/
def prRow (id : Nat) : Option PrState := (s.finding? id).bind Finding.prState

def markPrEnded (id : Nat) (state : PrPhase) (prNumber syncedAt : Int) : Store :=
  s.modifyFinding id (Finding.upsertPr fun p => p.ended state prNumber syncedAt)

def markPrMerged (id : Nat) (prNumber syncedAt : Int) : Store :=
  s.markPrEnded id .merged prNumber syncedAt

def markPrClosed (id : Nat) (prNumber syncedAt : Int) : Store :=
  s.markPrEnded id .closed prNumber syncedAt

def syncPrOpen (id : Nat) (d : SyncPrData) : Store :=
  s.modifyFinding id (Finding.upsertPr fun p => p.synced d)

def markPrEngaged (id : Nat) (lastEngagedActivityAt syncedAt : Int)
    (fingerprint headSha : Option Text) : Store :=
  s.modifyFinding id
    (Finding.updatePr (PrState.engaged lastEngagedActivityAt syncedAt fingerprint headSha))

def setAttentionAside (id : Nat) (now : Int) : Store :=
  s.modifyFinding id (Finding.updatePr (PrState.setAside now))

def markPrHarvested (id : Nat) (harvestedAt : Int) : Store :=
  s.modifyFinding id (Finding.updatePr fun p => { p with harvestedAt := some harvestedAt })

/-- The classification replaces only `closed`; the stamp lands regardless. -/
def recordClosedHarvest (id : Nat) (status : FindingStatus) (reason : Text)
    (anchor : Option VerdictAnchor) (harvestedAt : Int) : Store × Bool :=
  let classified := s.updateFindingIf id (fun f => f.status = .closed)
    (Finding.setVerdict status reason anchor)
  (classified.1.markPrHarvested id harvestedAt, classified.2)

def setPrNumber (id : Nat) (prNumber : Int) : Store :=
  s.modifyFinding id (Finding.upsertPr fun p => p.forNumber prNumber)

def findingsWithStatus (status : FindingStatus) : List (Row Finding) :=
  ((rows s.findings).filter fun row => row.val.status = status).reverse

def pendingHarvest (f : Finding) : Bool :=
  f.prState.any fun p =>
    p.harvestedAt.isNone
      && (f.status = .merged || p.state = some .closed && f.status = .closed)

def syncedBefore (a b : Option Int) : Bool :=
  match a, b with
  | none, _ => true
  | some _, none => false
  | some x, some y => x ≤ y

def listPendingHarvest : List (Row Finding) :=
  (((rows s.findings).filter fun row => pendingHarvest row.val).reverse).insertionSort fun a b =>
    syncedBefore (a.val.prState.bind PrState.syncedAt) (b.val.prState.bind PrState.syncedAt) = true

/-- The row's id, and whether it is new. -/
def upsertFinding (repoId : Nat) (row : FindingInsert) (type : FindingType) :
    Store × (Nat × Bool) :=
  match (rows s.findings).find? fun r =>
    r.val.type = type && r.val.report.fingerprint = row.fingerprint with
  | some r => (s, (r.id, false))
  | none =>
    (s.addFinding { type := type, repoId := repoId, report := row, status := .new },
      (s.findings.length, true))

def reopenSuppressed (id : Nat) (row : FindingInsert) : Store × Bool :=
  s.updateFindingIf id (fun f => f.status.isSuppressed) fun f =>
    { f with
      status := .new
      verdictReason := none
      report := row.reopen f.report
      anchor := none }

def refreshDepUpdate (id : Nat) (row : FindingInsert) : Store × Bool :=
  s.updateFindingIf id
    (fun f => f.refreshable
      && (f.status = .superseded || row.refresh f.report ≠ f.report))
    (Finding.refreshDep row)

/-- SQL's `package NOT IN (...)`: a NULL package passes only an empty list. -/
def packageChecked (package : Option Text) (unchecked : List Text) : Bool :=
  match package with
  | some p => !unchecked.contains p
  | none => unchecked.isEmpty

def unproposed (repoId : Nat) (proposed unchecked : List Text) (f : Finding) : Bool :=
  f.repoId = repoId && f.type = .depUpdate && f.status = .new
    && !proposed.contains f.report.fingerprint
    && packageChecked f.report.package unchecked

def supersedeUnproposedDepUpdates (repoId : Nat) (proposed unchecked : List Text) : Store × Nat :=
  ({ s with
      findings := s.findings.map fun f =>
        if unproposed repoId proposed unchecked f then
          { f with status := .superseded, verdictReason := some depUnproposedReason }
        else f },
    s.findings.countP (unproposed repoId proposed unchecked))

/-- Whether a proposed move is the move a queued finding stands for. -/
def sameMove (m : ProposedMove) (q : Finding) : Bool :=
  (q.report.package = some m.package
      && m.major = (q.report.updateType = some "major".toList : Bool))
    || m.unit.isPrefixOf q.report.fingerprint

def queuedUnproposed (repoId : Nat) (moves : List ProposedMove) (q : Finding) : Bool :=
  q.repoId = repoId && q.type = .depUpdate && q.status = .queued
    && !(moves.any fun m => m.fingerprint = q.report.fingerprint)

/-- The finding that takes over from `q`: the oldest open one proposed for its move. -/
def heir (repoId : Nat) (moves : List ProposedMove) (q : Finding) : Option Nat :=
  (((rows s.findings).filter fun p =>
    p.val.repoId = repoId && p.val.type = .depUpdate && p.val.status = .new
      && moves.any fun m =>
        sameMove m q && m.fingerprint = p.val.report.fingerprint).map Row.id).min?

def handOverPairs (repoId : Nat) (moves : List ProposedMove) : List (Nat × Nat) :=
  (rows s.findings).filterMap fun q =>
    if queuedUnproposed repoId moves q.val then
      (s.heir repoId moves q.val).map fun target => (q.id, target)
    else none

def handOverReason (target : Nat) : Text :=
  "replaced by #".toList ++ Text.nat target ++ " from the dependency scan".toList

/-- Only where the anchor and the suppression still stand. -/
def reconfirmAnchor (id : Nat) (sha : Text) (holdsWhile : Option Text) : Store :=
  (s.updateFindingIf id (fun f => f.status.isSuppressed) fun f =>
    { f with anchor := f.anchor.map fun a =>
        { a with sha := sha, holdsWhile := holdsWhile.or a.holdsWhile } }).1

/-- One pair of the hand-over; the count goes up when the source was still queued. -/
def handOver (acc : Store × Nat) (pair : Nat × Nat) : Store × Nat :=
  let source := acc.1.updateFindingIf pair.1 (fun f => f.status = .queued) fun f =>
    { f with status := .superseded, verdictReason := some (handOverReason pair.2) }
  if source.2 then
    let given := (source.1.finding? pair.1).bind Finding.budgetOverride
    ((source.1.updateFindingIf pair.2 (fun f => f.status = .new || f.status = .queued) fun f =>
      { f with
        status := .queued
        budgetOverride := Finding.strongerOverride f.budgetOverride given }).1, acc.2 + 1)
  else acc

def handOverQueuedDepUpdates (repoId : Nat) (moves : List ProposedMove) : Store × Nat :=
  (s.handOverPairs repoId moves).foldl handOver (s, 0)

end Store

end Hunter
