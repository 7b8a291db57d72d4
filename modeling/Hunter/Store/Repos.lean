import Hunter.Store.Tables
import Mathlib.Data.List.Sort
set_option autoImplicit false

namespace Hunter.Store
variable (s : Store)

def setLastHunt (repoId : Nat) (sha : Text) : Store :=
  s.modifyRepo repoId fun r => { r with lastHuntSha := some sha }

def clearLastHuntSha (repoId : Nat) : Store :=
  s.modifyRepo repoId fun r => { r with lastHuntSha := none }

def setLastFullHunt (repoId : Nat) (now : Int) : Store :=
  s.modifyRepo repoId fun r => { r with lastFullHuntAt := some now }

/-- The value of a request made at `now`. -/
def nextRequest (r : Repo) (now : Int) : Int :=
  max now (max (r.fullHuntRequestedAt.getD 0 + 1) (r.fullHuntRequestAttempted.getD 0 + 1))

def requestFullHunt (repoId : Nat) (now : Int) : Store :=
  s.modifyRepo repoId fun r =>
    if r.deleted then r else { r with fullHuntRequestedAt := some (nextRequest r now) }

def markFullHuntAttempted (repoId : Nat) (request : Int) : Store :=
  s.modifyRepo repoId fun r => { r with fullHuntRequestAttempted := some request }

/-- Clear the pending request, if it is the one the job's chain accepted. -/
def settleFullHuntRequest (repoId job : Nat) : Store :=
  s.modifyRepo repoId fun r =>
    match r.fullHuntRequestedAt, (s.job? job).bind Job.fullHuntRequest with
    | some pending, some accepted =>
      if pending = accepted then { r with fullHuntRequestedAt := none } else r
    | _, _ => r

def addRepo (name defaultBranch : Text) : Store :=
  { s with repos := s.repos ++ [some { name := name, defaultBranch := defaultBranch }] }

/-- The columns of `repos` that are modelled; one not given stays. -/
def updateRepo (repoId : Nat) (defaultBranch : Option Text) : Store :=
  s.modifyRepo repoId fun r => { r with defaultBranch := defaultBranch.getD r.defaultBranch }

/-- Whether a finding or a job of the repo is on record. -/
def referenced (repoId : Nat) : Bool :=
  s.findings.any (fun f => f.repoId = repoId) || s.jobs.any fun j => j.repoId = repoId

def flagged (repoId : Nat) : Bool := (s.repo? repoId).any Repo.deleted

/-- Refused while the repo has findings or jobs. -/
def softDeleteRepo (repoId : Nat) (now : Int) : Store :=
  if s.referenced repoId then s
  else
    s.modifyRepo repoId fun r =>
      if r.deleted then r
      else
        { r with
          deletedAt := some now
          name := r.name ++ " (deleted #".toList ++ Text.nat repoId ++ [')'] }

def deletedRepoIds : List Nat :=
  let deleted := (rows s.repos).filterMap fun row =>
    (row.val.bind Repo.deletedAt).map fun at_ => (at_, row.id)
  (deleted.insertionSort fun a b => a.1 ≤ b.1).map Prod.snd

/-- `DELETE FROM repos WHERE id = ? AND deleted_at IS NOT NULL`. -/
def forgetDeletedRepo (id : Nat) : Store :=
  if s.flagged id then { s with repos := s.repos.set id none } else s

variable {s} {id k : Nat} {now : Int}

@[simp] theorem findings_softDeleteRepo : (s.softDeleteRepo id now).findings = s.findings := by
  unfold softDeleteRepo
  split <;> rfl

@[simp] theorem jobs_softDeleteRepo : (s.softDeleteRepo id now).jobs = s.jobs := by
  unfold softDeleteRepo
  split <;> rfl

@[simp] theorem findings_forgetDeletedRepo : (s.forgetDeletedRepo id).findings = s.findings := by
  unfold forgetDeletedRepo
  split <;> rfl

@[simp] theorem jobs_forgetDeletedRepo : (s.forgetDeletedRepo id).jobs = s.jobs := by
  unfold forgetDeletedRepo
  split <;> rfl

@[simp] theorem length_repos_forgetDeletedRepo :
    (s.forgetDeletedRepo id).repos.length = s.repos.length := by
  unfold forgetDeletedRepo
  split <;> simp

theorem lt_of_repo? {r : Repo} (h : s.repo? id = some r) : id < s.repos.length := by
  rw [repo?] at h
  exact (List.getElem?_eq_some_iff.1 (Option.join_eq_some_iff.1 h)).1

@[simp] theorem length_repos_modifyRepo {g : Repo → Repo} :
    (s.modifyRepo id g).repos.length = s.repos.length :=
  List.length_modify _ _ _

theorem repo?_forgetDeletedRepo :
    (s.forgetDeletedRepo id).repo? k =
      if id = k ∧ s.flagged id = true then none else s.repo? k := by
  unfold forgetDeletedRepo
  cases hflagged : s.flagged id with
  | false => simp
  | true =>
    simp only [if_true, repo?, List.getElem?_set]
    by_cases hk : id = k
    · subst hk
      simp only [if_true, true_and]
      split <;> rfl
    · simp [hk]

end Hunter.Store
