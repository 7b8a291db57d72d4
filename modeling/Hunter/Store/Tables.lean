import Hunter.Domain
import Mathlib.Data.List.Basic
set_option autoImplicit false

namespace Hunter

structure VerdictAnchor where
  sha : Text
  files : List Text
  holdsWhile : Option Text
  deriving DecidableEq

inductive PrPhase
  | opened | merged | closed
  deriving DecidableEq

/-- A `pr_state` row. -/
structure PrState where
  prNumber : Option Int := none
  state : Option PrPhase := none
  headRef : Option Text := none
  headSha : Option Text := none
  lastActivityAt : Option Int := none
  lastEngagedActivityAt : Option Int := none
  needsAttention : Option Text := none
  attentionSince : Option Int := none
  attentionFingerprint : Option Text := none
  addressedFingerprint : Option Text := none
  addressedHeadSha : Option Text := none
  syncedAt : Option Int := none
  harvestedAt : Option Int := none
  harvestAttempts : Nat := 0
  lastHarvestFailure : Option Text := none
  deriving DecidableEq

structure FindingInsert where
  fingerprint : Text
  file : Text
  symbol : Option Text
  line : Option Int
  severity : Severity
  confidence : ℚ
  summary : Text
  detail : Option Text
  bugClass : Option BugClass := none
  evidencePlan : Option Text
  ecosystem : Option Text
  package : Option Text
  currentVersion : Option Text
  latestVersion : Option Text
  updateType : Option Text
  securityAdvisory : Option Text
  deriving DecidableEq

/-- A `findings` row, with the rows of `verdict_anchors` and `pr_state` keyed by it. -/
structure Finding where
  type : FindingType
  repoId : Nat
  report : FindingInsert
  status : FindingStatus
  prUrl : Option Text := none
  verdictReason : Option Text := none
  budgetOverride : Option BudgetOverride := none
  fixAttempts : Nat := 0
  lastFixFailure : Option Text := none
  recheckAttempts : Nat := 0
  lastRecheckFailure : Option Text := none
  anchor : Option VerdictAnchor := none
  prState : Option PrState := none
  deriving DecidableEq

/-- A `jobs` row. -/
structure Job where
  kind : JobKind
  repoId : Nat
  findingId : Option Nat
  state : JobState
  resumedFrom : Option Nat
  sessionFile : Option Text := none
  tokensNew : Option Int := none
  killedReason : Option Text := none
  pinnedSha : Option Text := none
  blocker : Option Text := none
  fullHistory : Bool := false
  fullHuntRequest : Option Int := none
  deriving DecidableEq

structure Repo where
  name : Text
  defaultBranch : Text
  deletedAt : Option Int := none
  lastHuntSha : Option Text := none
  lastFullHuntAt : Option Int := none
  fullHuntRequestedAt : Option Int := none
  fullHuntRequestAttempted : Option Int := none
  deriving DecidableEq

def Repo.deleted (r : Repo) : Bool := r.deletedAt.isSome

/-- The database. A row's id is its position: findings and jobs are never deleted, and the row of a
repo that is dropped leaves its place empty, as no id is given out again. -/
structure Store where
  repos : List (Option Repo)
  findings : List Finding
  jobs : List Job
  deriving DecidableEq

structure Row (α : Type) where
  id : Nat
  val : α
  deriving DecidableEq

def rows {α : Type} (table : List α) : List (Row α) :=
  table.zipIdx.map fun p => ⟨p.2, p.1⟩

@[simp] theorem mem_rows {α : Type} {table : List α} {row : Row α} :
    row ∈ rows table ↔ table[row.id]? = some row.val := by
  obtain ⟨id, val⟩ := row
  simp [rows, List.mem_zipIdx_iff_getElem?]

theorem map_id_rows {α : Type} {table : List α} :
    (rows table).map Row.id = List.range' 0 table.length := by
  rw [rows, List.map_map, ← List.zipIdx_map_snd]
  rfl

theorem nodup_rows {α : Type} {table : List α} : ((rows table).map Row.id).Nodup := by
  rw [map_id_rows]
  exact List.nodup_range'

theorem nodup_filter_rows {α : Type} {table : List α} (p : Row α → Bool) :
    (((rows table).filter p).map Row.id).Nodup :=
  nodup_rows.sublist (List.filter_sublist.map _)

theorem getElem?_foldl_modify {α : Type} {f : α → α} (hagain : ∀ x, f (f x) = f x)
    (ids : List Nat) (table : List α) (k : Nat) :
    (ids.foldl (fun table id => table.modify id f) table)[k]? =
      if k ∈ ids then table[k]?.map f else table[k]? := by
  induction ids generalizing table with
  | nil => rfl
  | cons id rest ih =>
    rw [List.foldl_cons, ih, List.getElem?_modify]
    by_cases hid : id = k
    · subst hid
      by_cases hmem : id ∈ rest
      · have hf : (f ∘ fun x => f x) = f := funext hagain
        simp [hmem, hf]
      · simp [hmem]
    · simp [hid, Ne.symm hid]

namespace Store

def finding? (s : Store) (id : Nat) : Option Finding := s.findings[id]?
def job? (s : Store) (id : Nat) : Option Job := s.jobs[id]?
def repo? (s : Store) (id : Nat) : Option Repo := s.repos[id]?.join

def modifyFinding (s : Store) (id : Nat) (f : Finding → Finding) : Store :=
  { s with findings := s.findings.modify id f }

def modifyJob (s : Store) (id : Nat) (f : Job → Job) : Store :=
  { s with jobs := s.jobs.modify id f }

def modifyRepo (s : Store) (id : Nat) (f : Repo → Repo) : Store :=
  { s with repos := s.repos.modify id (Option.map f) }

def addJob (s : Store) (j : Job) : Store := { s with jobs := s.jobs ++ [j] }
def addFinding (s : Store) (f : Finding) : Store := { s with findings := s.findings ++ [f] }

/-- `UPDATE findings ... WHERE id = ? AND status = ?`: the new table, and whether a row changed. -/
def updateFindingIf (s : Store) (id : Nat) (p : Finding → Bool) (f : Finding → Finding) :
    Store × Bool :=
  if (s.finding? id).any p then (s.modifyFinding id f, true) else (s, false)

variable (s : Store) (i k : Nat) (f : Finding → Finding) (g : Job → Job) (h : Repo → Repo)

@[simp] theorem finding?_modifyFinding :
    (s.modifyFinding i f).finding? k =
      if i = k then (s.finding? k).map f else s.finding? k := by
  simp only [modifyFinding, finding?, List.getElem?_modify]
  split
  · rfl
  · simp

@[simp] theorem job?_modifyJob :
    (s.modifyJob i g).job? k = if i = k then (s.job? k).map g else s.job? k := by
  simp only [modifyJob, job?, List.getElem?_modify]
  split
  · rfl
  · simp

@[simp] theorem repo?_modifyRepo :
    (s.modifyRepo i h).repo? k = if i = k then (s.repo? k).map h else s.repo? k := by
  simp only [modifyRepo, repo?, List.getElem?_modify]
  split
  · cases s.repos[k]? <;> rfl
  · simp

@[simp] theorem jobs_modifyRepo : (s.modifyRepo i h).jobs = s.jobs := rfl
@[simp] theorem findings_modifyRepo : (s.modifyRepo i h).findings = s.findings := rfl
@[simp] theorem job?_modifyRepo : (s.modifyRepo i h).job? k = s.job? k := rfl
@[simp] theorem finding?_modifyRepo : (s.modifyRepo i h).finding? k = s.finding? k := rfl
@[simp] theorem jobs_modifyFinding : (s.modifyFinding i f).jobs = s.jobs := rfl
@[simp] theorem repos_modifyFinding : (s.modifyFinding i f).repos = s.repos := rfl
@[simp] theorem job?_modifyFinding : (s.modifyFinding i f).job? k = s.job? k := rfl
@[simp] theorem findings_modifyJob : (s.modifyJob i g).findings = s.findings := rfl
@[simp] theorem repos_modifyJob : (s.modifyJob i g).repos = s.repos := rfl
@[simp] theorem finding?_modifyJob : (s.modifyJob i g).finding? k = s.finding? k := rfl
@[simp] theorem findings_addJob (j : Job) : (s.addJob j).findings = s.findings := rfl
@[simp] theorem finding?_addJob (j : Job) : (s.addJob j).finding? k = s.finding? k := rfl
@[simp] theorem repos_addJob (j : Job) : (s.addJob j).repos = s.repos := rfl
@[simp] theorem jobs_addFinding (x : Finding) : (s.addFinding x).jobs = s.jobs := rfl
@[simp] theorem job?_addFinding (x : Finding) : (s.addFinding x).job? k = s.job? k := rfl

@[simp] theorem length_modifyJob : (s.modifyJob i g).jobs.length = s.jobs.length := by
  simp [modifyJob]

theorem job?_addJob (j : Job) :
    (s.addJob j).job? k = if k = s.jobs.length then some j else s.job? k := by
  simp only [addJob, job?, List.getElem?_append]
  split
  · rename_i hlt
    rw [if_neg (by omega)]
  · rename_i hge
    split
    · rename_i heq
      simp [heq]
    · rw [List.getElem?_eq_none (by simp; omega), List.getElem?_eq_none (by omega)]

theorem finding?_addFinding (x : Finding) :
    (s.addFinding x).finding? k = if k = s.findings.length then some x else s.finding? k := by
  simp only [addFinding, finding?, List.getElem?_append]
  split
  · rename_i hlt
    rw [if_neg (by omega)]
  · rename_i hge
    split
    · rename_i heq
      simp [heq]
    · rw [List.getElem?_eq_none (by simp; omega), List.getElem?_eq_none (by omega)]

theorem job?_lt {s : Store} {k : Nat} {j : Job} (h : s.job? k = some j) : k < s.jobs.length := by
  simp only [job?, List.getElem?_eq_some_iff] at h
  exact h.1

theorem job?_foldl_modifyJob {g : Job → Job} (hagain : ∀ j, g (g j) = g j) (ids : List Nat)
    (s : Store) (k : Nat) : (ids.foldl (fun s id => s.modifyJob id g) s).job? k =
      if k ∈ ids then (s.job? k).map g else s.job? k := by
  have hjobs : (ids.foldl (fun s id => s.modifyJob id g) s).jobs =
      ids.foldl (fun table id => table.modify id g) s.jobs :=
    (List.foldl_hom Store.jobs fun _ _ => rfl).symm
  rw [job?, hjobs, getElem?_foldl_modify hagain, job?]

theorem finding?_foldl_modifyFinding {f : Finding → Finding} (hagain : ∀ x, f (f x) = f x)
    (ids : List Nat) (s : Store) (k : Nat) :
    (ids.foldl (fun s id => s.modifyFinding id f) s).finding? k =
      if k ∈ ids then (s.finding? k).map f else s.finding? k := by
  have hfindings : (ids.foldl (fun s id => s.modifyFinding id f) s).findings =
      ids.foldl (fun table id => table.modify id f) s.findings :=
    (List.foldl_hom Store.findings fun _ _ => rfl).symm
  rw [finding?, hfindings, getElem?_foldl_modify hagain, finding?]

theorem foldl_keeps {α β : Type} {f : Store → α → Store} {g : Store → β}
    (hkeeps : ∀ s x, g (f s x) = g s) (xs : List α) (s : Store) : g (xs.foldl f s) = g s := by
  induction xs generalizing s with
  | nil => rfl
  | cons x rest ih => exact (ih (f s x)).trans (hkeeps s x)

section
variable {s : Store} {i k : Nat} {f : Finding → Finding} {p : Finding → Bool}

theorem finding?_updateFindingIf :
    (s.updateFindingIf i p f).1.finding? k =
      if i = k then (s.finding? k).map (fun x => if p x then f x else x) else s.finding? k := by
  unfold updateFindingIf
  by_cases hik : i = k
  · subst hik
    cases hx : s.finding? i with
    | none => simp [hx]
    | some x => by_cases hp : p x = true <;> simp [hx, hp]
  · split <;> simp [hik]

theorem jobs_updateFindingIf : (s.updateFindingIf i p f).1.jobs = s.jobs := by
  unfold updateFindingIf
  split <;> rfl

theorem repos_updateFindingIf :
    (s.updateFindingIf i p f).1.repos = s.repos := by
  unfold updateFindingIf
  split <;> rfl

end

end Store

end Hunter
