import Hunter.Changes.Requests
set_option autoImplicit false

namespace Hunter

namespace StoreCall

/-- Whether a statement sets the watermark of repo `id`. -/
def marksHunt (id : Nat) (last : Option Text) : {β : Type} → StoreCall β → Prop
  | _, .setLastHunt r sha => r = id ∧ last = some sha
  | _, .clearLastHuntSha r => r = id ∧ last = none
  | _, _ => False

/-- Whether a statement dates the last full hunt of repo `id`. -/
def datesFull (id : Nat) : {β : Type} → StoreCall β → Prop
  | _, .setLastFullHunt r _ => r = id
  | _, _ => False

/-- Whether a statement drops the request that repo `id` has pending. -/
def settles (s : Store) (id : Nat) (pending : Option Int) : {β : Type} → StoreCall β → Prop
  | _, .settleFullHuntRequest r job =>
    r = id ∧ pending.isSome ∧ pending = (s.job? job).bind Job.fullHuntRequest
  | _, _ => False

/-- Whether a statement notes that a hunt took up the request of repo `id`. -/
def attempts (id : Nat) (request : Option Int) : {β : Type} → StoreCall β → Prop
  | _, .markFullHuntAttempted r v => r = id ∧ request = some v
  | _, _ => False

/-- Whether a statement drops the row of repo `id`, if it is flagged. -/
def dropsRepo (id : Nat) : {β : Type} → StoreCall β → Prop
  | _, .forgetDeletedRepo r => r = id
  | _, _ => False

end StoreCall

structure RepoChange {β : Type} (c : StoreCall β) (s : Store) (id : Nat) (r r' : Repo) : Prop where
  deleted : r'.deleted = r.deleted
  last : r'.lastHuntSha = r.lastHuntSha ∨ c.marksHunt id r'.lastHuntSha
  full : r'.lastFullHuntAt = r.lastFullHuntAt ∨ c.datesFull id
  request : r'.fullHuntRequestedAt = r.fullHuntRequestedAt ∨
    r'.fullHuntRequestedAt = none ∧ c.settles s id r.fullHuntRequestedAt
  attempted : r'.fullHuntRequestAttempted = r.fullHuntRequestAttempted ∨
    c.attempts id r'.fullHuntRequestAttempted

theorem RepoChange.refl {β : Type} (c : StoreCall β) (s : Store) (id : Nat) (r : Repo) :
    RepoChange c s id r r :=
  ⟨rfl, Or.inl rfl, Or.inl rfl, Or.inl rfl, Or.inl rfl⟩

namespace Store
variable {s : Store}

theorem repos_retireAll {ids : List Nat} {state : JobState} {why : Text} :
    (s.retireAll ids state why).repos = s.repos := by
  unfold retireAll
  induction ids generalizing s with
  | nil => rfl
  | cons id rest ih => exact ih

theorem repos_foldl_handOver {pairs : List (Nat × Nat)} {acc : Store × Nat} :
    (pairs.foldl Store.handOver acc).1.repos = acc.1.repos := by
  induction pairs generalizing acc with
  | nil => rfl
  | cons pair rest ih =>
    refine ih.trans ?_
    unfold handOver
    dsimp only
    split
    · exact repos_updateFindingIf.trans repos_updateFindingIf
    · rfl

def liveRepo (s : Store) (r : Nat) : Bool := (s.repo? r).any fun repo => !repo.deleted

theorem repos_createJob {s' : Store} {kind : JobKind} {repoId : Nat}
    {findingId resumedFrom : Option Nat} {state : JobState} {created : CreatedJob}
    (h : s.createJob kind repoId findingId state resumedFrom = some (s', created)) :
    s'.repos = s.repos ∧ s.liveRepo repoId = true := by
  unfold createJob at h
  split at h
  · rename_i hlive
    refine ⟨?_, hlive⟩
    cases resumedFrom with
    | some p =>
      cases h
      rfl
    | none =>
      cases h
      exact repos_retireAll
  · cases h

end Store

section
variable {β : Type} {c : StoreCall β} {s s' : Store} {b : β}

open Store in
/-- A statement keeps the repos, changes one in its own way, or drops a flagged one. -/
theorem StoreCall.repos (h : c.apply s = some (b, s')) : s'.repos = s.repos ∨
    (∃ k g, s' = s.modifyRepo k g ∧ ∀ r, RepoChange c s k r (g r)) ∨
    ∃ k, c.dropsRepo k ∧ s' = s.forgetDeletedRepo k := by
  cases c with
  | forgetDeletedRepo id =>
    cases h
    exact Or.inr (Or.inr ⟨id, rfl, rfl⟩)
  | setLastHunt | clearLastHuntSha =>
    cases h
    exact Or.inr (Or.inl
      ⟨_, _, rfl, fun r => ⟨rfl, Or.inr ⟨rfl, rfl⟩, Or.inl rfl, Or.inl rfl, Or.inl rfl⟩⟩)
  | setLastFullHunt =>
    cases h
    exact Or.inr (Or.inl
      ⟨_, _, rfl, fun r => ⟨rfl, Or.inl rfl, Or.inr rfl, Or.inl rfl, Or.inl rfl⟩⟩)
  | markFullHuntAttempted =>
    cases h
    exact Or.inr (Or.inl
      ⟨_, _, rfl, fun r => ⟨rfl, Or.inl rfl, Or.inl rfl, Or.inl rfl, Or.inr ⟨rfl, rfl⟩⟩⟩)
  | settleFullHuntRequest repoId job =>
    cases h
    refine Or.inr (Or.inl ⟨_, _, rfl, fun r => ?_⟩)
    split
    · rename_i pending accepted hpending haccepted
      split
      · rename_i heq
        refine ⟨rfl, Or.inl rfl, Or.inl rfl, Or.inr ⟨rfl, rfl, ?_⟩, Or.inl rfl⟩
        rw [hpending, haccepted, heq]
        exact ⟨rfl, rfl⟩
      · exact RepoChange.refl _ _ _ r
    · exact RepoChange.refl _ _ _ r
  | createJob kind repoId findingId state resumedFrom =>
    simp only [apply] at h
    split at h
    · rename_i hcreate
      cases h
      exact Or.inl (repos_createJob hcreate).1
    · cases h
      exact Or.inl rfl
  | retireStrandedSuspensions =>
    cases h
    exact Or.inl repos_retireAll
  | blockFixJob =>
    simp only [apply, Option.map_eq_some_iff] at h
    obtain ⟨t, ht, hts⟩ := h
    cases hts
    obtain ⟨j, x, -, -, -, -, rfl⟩ := blockFixJob_spec ht
    exact Or.inl rfl
  | claimInProgress | recordClosedHarvest | reopenSuppressed | refreshDepUpdate
  | reconfirmAnchor =>
    cases h
    exact Or.inl repos_updateFindingIf
  | upsertFinding repoId row type =>
    cases h
    refine Or.inl ?_
    unfold Store.upsertFinding
    split <;> rfl
  | handOverQueuedDepUpdates =>
    cases h
    exact Or.inl repos_foldl_handOver
  | _ =>
    cases h
    exact Or.inl rfl

theorem StoreCall.repoEdits {id : Nat} {r : Repo} (h : c.apply s = some (b, s'))
    (hr : s.repo? id = some r) :
    (∃ r', s'.repo? id = some r' ∧ RepoChange c s id r r') ∨
      s'.repo? id = none ∧ r.deleted = true ∧ c.dropsRepo id := by
  rcases StoreCall.repos h with hrepos | ⟨k, g, rfl, hg⟩ | ⟨k, hdrops, rfl⟩
  · refine Or.inl ⟨r, ?_, .refl c s id r⟩
    rw [Store.repo?, hrepos]
    exact hr
  · rw [Store.repo?_modifyRepo]
    split
    · rename_i hk
      subst hk
      exact Or.inl ⟨g r, by simp [hr], hg r⟩
    · exact Or.inl ⟨r, hr, .refl c s id r⟩
  · rw [Store.repo?_forgetDeletedRepo]
    split
    · rename_i hgone
      obtain ⟨rfl, hflagged⟩ := hgone
      refine Or.inr ⟨rfl, ?_, hdrops⟩
      simpa [Store.flagged, hr] using hflagged
    · exact Or.inl ⟨r, hr, .refl c s id r⟩

theorem StoreCall.repo_back {id : Nat} {r' : Repo} (h : c.apply s = some (b, s'))
    (hr' : s'.repo? id = some r') : ∃ r, s.repo? id = some r ∧ RepoChange c s id r r' := by
  cases hr : s.repo? id with
  | some r =>
    rcases StoreCall.repoEdits h hr with ⟨r'', hr'', hchange⟩ | ⟨hgone, -⟩
    · cases hr'.symm.trans hr''
      exact ⟨r, rfl, hchange⟩
    · cases hr'.symm.trans hgone
  | none =>
    rcases StoreCall.repos h with hrepos | ⟨k, g, rfl, hg⟩ | ⟨k, -, rfl⟩
    · rw [Store.repo?, hrepos] at hr'
      cases hr.symm.trans hr'
    · rw [Store.repo?_modifyRepo, hr] at hr'
      split at hr' <;> cases hr'
    · rw [Store.repo?_forgetDeletedRepo, hr] at hr'
      split at hr' <;> cases hr'

theorem StoreCall.length_repos (h : c.apply s = some (b, s')) :
    s'.repos.length = s.repos.length := by
  rcases StoreCall.repos h with hrepos | ⟨k, g, rfl, -⟩ | ⟨k, -, rfl⟩
  · rw [hrepos]
  · exact List.length_modify _ _ _
  · exact Store.length_repos_forgetDeletedRepo

/-- No statement of the daemon's deletes a repo that is not flagged, or brings one back. -/
theorem StoreCall.liveRepo_eq (h : c.apply s = some (b, s')) (id : Nat) :
    s'.liveRepo id = s.liveRepo id := by
  cases hr : s.repo? id with
  | some r =>
    rcases StoreCall.repoEdits h hr with ⟨r', hr', hchange⟩ | ⟨hgone, hdeleted, -⟩
    · simp [Store.liveRepo, hr, hr', hchange.deleted]
    · simp [Store.liveRepo, hr, hgone, hdeleted]
  | none =>
    cases hr' : s'.repo? id with
    | none => simp [Store.liveRepo, hr, hr']
    | some r' =>
      obtain ⟨r, hr'', -⟩ := StoreCall.repo_back h hr'
      cases hr.symm.trans hr''

end

structure OperatorRepoChange (request : Request) (id : Nat) (r r' : Repo) : Prop where
  last : r'.lastHuntSha = r.lastHuntSha
  full : r'.lastFullHuntAt = r.lastFullHuntAt
  attempted : r'.fullHuntRequestAttempted = r.fullHuntRequestAttempted
  request : r'.fullHuntRequestedAt = r.fullHuntRequestedAt ∨
    ∃ now, request = .fullHunt id now ∧ r'.fullHuntRequestedAt = some (Store.nextRequest r now)

theorem OperatorRepoChange.refl (request : Request) (id : Nat) (r : Repo) :
    OperatorRepoChange request id r r :=
  ⟨rfl, rfl, rfl, Or.inl rfl⟩

open Store in
/-- A request changes one repo at most, adds one that has nothing reviewed or asked for, or drops a
flagged one. -/
theorem Accepts.repos {s s' : Store} {request : Request} (h : Accepts s request s') :
    (∃ k g, s'.repos = (s.modifyRepo k g).repos ∧ ∀ r, OperatorRepoChange request k r (g r)) ∨
      (∃ name defaultBranch, s' = s.addRepo name defaultBranch) ∨
      ∃ k, request = .reapRepo k ∧ s.droppable k = true ∧ s' = s.forgetDeletedRepo k := by
  have hsame : s'.repos = s.repos → ∃ k g, s'.repos = (s.modifyRepo k g).repos ∧
      ∀ r, OperatorRepoChange request k r (g r) := fun hrepos =>
    ⟨0, id, by rw [hrepos, modifyRepo, Option.map_id, List.modify_id],
      OperatorRepoChange.refl request 0⟩
  cases h with
  | verdict =>
    refine Or.inl (hsame ?_)
    unfold applyVerdict
    split <;> exact repos_updateFindingIf
  | recheck | unqueue => exact Or.inl (hsame repos_updateFindingIf)
  | addRepo => exact Or.inr (Or.inl ⟨_, _, rfl⟩)
  | updateRepo => exact Or.inl ⟨_, _, rfl, fun _ => ⟨rfl, rfl, rfl, Or.inl rfl⟩⟩
  | @deleteRepo repoId now =>
    by_cases hreferenced : s.referenced repoId = true
    · exact Or.inl (hsame (congrArg Store.repos (if_pos hreferenced)))
    · refine Or.inl ⟨_, _, congrArg Store.repos (if_neg hreferenced), fun r => ?_⟩
      split
      · exact .refl _ _ r
      · exact ⟨rfl, rfl, rfl, Or.inl rfl⟩
  | reapRepo hdroppable => exact Or.inr (Or.inr ⟨_, rfl, hdroppable, rfl⟩)
  | fullHunt =>
    refine Or.inl ⟨_, _, rfl, fun r => ?_⟩
    split
    · exact .refl _ _ r
    · exact ⟨rfl, rfl, rfl, Or.inr ⟨_, rfl, rfl⟩⟩
  | _ => exact Or.inl (hsame rfl)

theorem Store.repo?_addRepo {s : Store} {name defaultBranch : Text} {id : Nat} :
    (s.addRepo name defaultBranch).repo? id =
      if id = s.repos.length then some { name := name, defaultBranch := defaultBranch }
      else s.repo? id := by
  simp only [Store.addRepo, Store.repo?, List.getElem?_append]
  rcases Nat.lt_trichotomy id s.repos.length with hlt | rfl | hgt
  · simp [hlt, hlt.ne]
  · simp
  · rw [if_neg hgt.not_gt, if_neg hgt.ne', List.getElem?_eq_none (by simp; omega),
      List.getElem?_eq_none hgt.le]

theorem Accepts.repoEdits {s s' : Store} {request : Request} {id : Nat} {r : Repo}
    (h : Accepts s request s') (hr : s.repo? id = some r) :
    (∃ r', s'.repo? id = some r' ∧ OperatorRepoChange request id r r') ∨
      s'.repo? id = none ∧ r.deleted = true ∧ request = .reapRepo id := by
  rcases h.repos with ⟨k, g, hrepos, hg⟩ | ⟨name, defaultBranch, rfl⟩ | ⟨k, rfl, -, rfl⟩
  · refine Or.inl ?_
    rw [Store.repo?, hrepos, ← Store.repo?, Store.repo?_modifyRepo]
    split
    · rename_i hk
      subst hk
      exact ⟨g r, by simp [hr], hg r⟩
    · exact ⟨r, hr, .refl _ _ r⟩
  · refine Or.inl ⟨r, ?_, .refl _ _ r⟩
    rw [Store.repo?_addRepo, if_neg, hr]
    rintro rfl
    simp [Store.repo?] at hr
  · rw [Store.repo?_forgetDeletedRepo]
    split
    · rename_i hgone
      obtain ⟨rfl, hflagged⟩ := hgone
      refine Or.inr ⟨rfl, ?_, rfl⟩
      simpa [Store.flagged, hr] using hflagged
    · exact Or.inl ⟨r, hr, .refl _ _ r⟩

theorem Accepts.length_repos {s s' : Store} {request : Request} (h : Accepts s request s') :
    s.repos.length ≤ s'.repos.length := by
  rcases h.repos with ⟨k, g, hrepos, -⟩ | ⟨name, defaultBranch, rfl⟩ | ⟨k, -, -, rfl⟩
  · rw [hrepos, Store.modifyRepo, List.length_modify]
  · simp [Store.addRepo]
  · rw [Store.length_repos_forgetDeletedRepo]

theorem Accepts.repo_back {s s' : Store} {request : Request} {id : Nat} {r' : Repo}
    (h : Accepts s request s') (hr' : s'.repo? id = some r') :
    (∃ r, s.repo? id = some r ∧ OperatorRepoChange request id r r') ∨
      id = s.repos.length ∧ r'.lastHuntSha = none ∧ r'.lastFullHuntAt = none ∧
        r'.fullHuntRequestedAt = none ∧ r'.fullHuntRequestAttempted = none := by
  cases hr : s.repo? id with
  | some r =>
    rcases h.repoEdits hr with ⟨r'', hr'', hchange⟩ | ⟨hgone, -⟩
    · cases hr'.symm.trans hr''
      exact Or.inl ⟨r, rfl, hchange⟩
    · cases hr'.symm.trans hgone
  | none =>
    rcases h.repos with ⟨k, g, hrepos, -⟩ | ⟨name, defaultBranch, rfl⟩ | ⟨k, -, -, rfl⟩
    · rw [Store.repo?, hrepos, ← Store.repo?, Store.repo?_modifyRepo, hr] at hr'
      split at hr' <;> cases hr'
    · rw [Store.repo?_addRepo] at hr'
      split at hr'
      · rename_i hid
        cases hr'
        exact Or.inr ⟨hid, rfl, rfl, rfl, rfl⟩
      · cases hr.symm.trans hr'
    · rw [Store.repo?_forgetDeletedRepo, hr] at hr'
      split at hr' <;> cases hr'

end Hunter
