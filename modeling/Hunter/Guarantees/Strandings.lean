import Hunter.Guarantees.DeletedRepos
set_option autoImplicit false

namespace Hunter
open Effect

/-! What the sweep leaves of the suspended jobs of findings. -/

theorem FindingJobKind.keptAt_iff {kind : FindingJobKind} {status : FindingStatus} :
    kind.keptAt status = true ↔ kind.resumableAt status = true ∨
      kind = .fix ∧ (status = .blocked ∨ status = .fixing) := by
  cases kind <;> cases status <;> simp [keptAt, resumableAt]

namespace Store
variable {s : Store}

theorem findings_retireStrandedSuspensions :
    s.retireStrandedSuspensions.1.findings = s.findings := findings_retireAll

theorem repos_retireStrandedSuspensions :
    s.retireStrandedSuspensions.1.repos = s.repos := repos_retireAll

theorem job?_retireStrandedSuspensions {id : Nat} :
    s.retireStrandedSuspensions.1.job? id = (s.job? id).map fun j =>
      if s.stranded id j then j.retire .killed (some "finding-moved".toList) else j := by
  rw [retireStrandedSuspensions, job?_retireAll]
  cases hj : s.job? id with
  | none => split <;> rfl
  | some j =>
    rw [Option.map_some, Option.map_some]
    split
    · rename_i hmem
      obtain ⟨j', hj', hstranded⟩ := mem_filter_rows.1 hmem
      cases hj.symm.trans hj'
      rw [if_pos hstranded]
    · rename_i hmem
      rw [if_neg fun hstranded => hmem (mem_filter_rows.2 ⟨j, hj, hstranded⟩)]

theorem hasSuccessor_retireStrandedSuspensions {id : Nat} :
    s.retireStrandedSuspensions.1.hasSuccessor id = s.hasSuccessor id := by
  rw [Bool.eq_iff_iff, hasSuccessor_iff, hasSuccessor_iff]
  simp only [job?_retireStrandedSuspensions, Option.map_eq_some_iff]
  constructor
  · rintro ⟨k, j', ⟨j, hj, rfl⟩, hfrom⟩
    refine ⟨k, j, hj, ?_⟩
    split at hfrom <;> exact hfrom
  · rintro ⟨k, j, hj, hfrom⟩
    refine ⟨k, _, ⟨j, hj, rfl⟩, ?_⟩
    split <;> exact hfrom

theorem statusOf_retireStrandedSuspensions {f : Option Nat} :
    s.retireStrandedSuspensions.1.statusOf f = s.statusOf f := by
  cases f with
  | none => rfl
  | some f => simp [statusOf, finding?, findings_retireStrandedSuspensions]

/-- A suspension is open after the sweep if it was before and is not stranded. -/
theorem openSuspension_swept {id : Nat} {j : Job} :
    (s.retireStrandedSuspensions.1.job? id = some j ∧
      s.retireStrandedSuspensions.1.openSuspension id j = true) ↔
    s.job? id = some j ∧ s.openSuspension id j = true ∧ s.stranded id j = false := by
  simp only [openSuspension, hasSuccessor_retireStrandedSuspensions, job?_retireStrandedSuspensions,
    Option.map_eq_some_iff]
  constructor
  · rintro ⟨⟨j0, hj0, hj⟩, hopen⟩
    split at hj
    · subst hj
      simp [Job.retire] at hopen
    · subst hj
      exact ⟨hj0, hopen, by simpa using ‹¬ s.stranded id j0 = true›⟩
  · rintro ⟨hj, hopen, hstranded⟩
    exact ⟨⟨j, hj, by simp [hstranded]⟩, hopen⟩

/-- A job of a finding is stranded where its finding is at a status that keeps no such job. -/
theorem stranded_iff {id : Nat} {j : Job} {kind : FindingJobKind} {status : FindingStatus}
    (hlive : s.liveRepo j.repoId = true) (hkind : j.kind = .finding kind)
    (hstatus : s.statusOf j.findingId = some status) (hopen : s.openSuspension id j = true) :
    s.stranded id j = false ↔ kind.keptAt status = true := by
  obtain ⟨repo, hrepo, -⟩ := (Option.any_eq_true _ _).1 hlive
  simp [stranded, hopen, hrepo, hstatus, hkind]

theorem resumable_iff {id : Nat} {j : Job} {kind : FindingJobKind} {status : FindingStatus}
    (hlive : s.liveRepo j.repoId = true) (hkind : j.kind = .finding kind)
    (hstatus : s.statusOf j.findingId = some status) (hopen : s.openSuspension id j = true) :
    s.resumable id j = true ↔ j.sessionFile.isSome = true ∧ kind.resumableAt status = true := by
  rw [resumable, hopen, hkind, hstatus, show (s.repo? j.repoId).any _ = true from hlive]
  simp

/-- An open suspension of a finding's job, at the status its kind is continued at but without
a session to continue. -/
def sessionless (s : Store) (id : Nat) (j : Job) : Bool :=
  s.openSuspension id j && j.sessionFile.isNone &&
    match j.kind with
    | .repo _ => false
    | .finding kind => (s.statusOf j.findingId).any kind.resumableAt

def sessionsKept (s : Store) : Bool := (rows s.jobs).all fun row => !s.sessionless row.id row.val

theorem sessionsKept_iff : s.sessionsKept = true ↔
    ∀ id j, s.job? id = some j → s.sessionless id j = false := by
  simp only [sessionsKept, List.all_eq_true, mem_rows, Bool.not_eq_true']
  exact ⟨fun h id j hj => h ⟨id, j⟩ hj, fun h row hrow => h row.id row.val hrow⟩

/-- Every open suspension of a finding's job is offered, held for the operator or claimed. -/
def NoneStranded (s : Store) : Prop :=
  ∀ id j kind status, s.job? id = some j → s.openSuspension id j = true →
    j.kind = .finding kind → s.statusOf j.findingId = some status →
    s.resumable id j = true ∨ kind = .fix ∧ (status = .blocked ∨ status = .fixing)

def SameOffers (s s' : Store) : Prop :=
  ∀ row, row ∈ s'.listResumableJobs ↔ row ∈ s.listResumableJobs

def RepoJobsBare (s : Store) : Prop :=
  ∀ id j kind, s.job? id = some j → j.kind = .repo kind → j.findingId = none

theorem not_stranded_of_resumable {id : Nat} {j : Job} (hlive : s.JobsLive) (hbare : s.RepoJobsBare)
    (hj : s.job? id = some j) (hresumable : s.resumable id j = true) : s.stranded id j = false := by
  have hopen : s.openSuspension id j = true := by
    simp only [resumable, Bool.and_eq_true] at hresumable
    exact hresumable.1.1.1
  cases hkind : j.kind with
  | repo kind => simp [stranded, statusOf, hbare id j kind hj hkind]
  | finding kind =>
    cases hstatus : s.statusOf j.findingId with
    | none => simp [stranded, hstatus]
    | some status =>
      have hat := ((resumable_iff (hlive id j hj) hkind hstatus hopen).1 hresumable).2
      exact (stranded_iff (hlive id j hj) hkind hstatus hopen).2
        (FindingJobKind.keptAt_iff.2 (Or.inl hat))

theorem resumable_retireStrandedSuspensions {id : Nat} {j : Job} :
    s.retireStrandedSuspensions.1.resumable id j = s.resumable id j := by
  simp only [resumable, openSuspension, hasSuccessor_retireStrandedSuspensions,
    statusOf_retireStrandedSuspensions, repo?, repos_retireStrandedSuspensions]

/-- The sweep retires nothing that is offered, and lets nothing else be offered. -/
theorem sameOffers_swept (hlive : s.JobsLive) (hbare : s.RepoJobsBare) :
    s.SameOffers s.retireStrandedSuspensions.1 := by
  intro row
  rw [mem_listResumableJobs, mem_listResumableJobs, resumable_retireStrandedSuspensions]
  have hopen : s.resumable row.id row.val = true → s.openSuspension row.id row.val = true := by
    intro hresumable
    simp only [resumable, Bool.and_eq_true] at hresumable
    exact hresumable.1.1.1
  constructor
  · rintro ⟨hrow, hresumable⟩
    have hswept : s.retireStrandedSuspensions.1.openSuspension row.id row.val = true := by
      simp only [openSuspension, hasSuccessor_retireStrandedSuspensions]
      exact hopen hresumable
    exact ⟨(openSuspension_swept.1 ⟨hrow, hswept⟩).1, hresumable⟩
  · rintro ⟨hrow, hresumable⟩
    have hkept := not_stranded_of_resumable hlive hbare hrow hresumable
    exact ⟨(openSuspension_swept.2 ⟨hrow, hopen hresumable, hkept⟩).1, hresumable⟩

theorem not_sessionless_iff {id : Nat} {j : Job} {kind : FindingJobKind} {status : FindingStatus}
    (hkind : j.kind = .finding kind) (hstatus : s.statusOf j.findingId = some status)
    (hopen : s.openSuspension id j = true) :
    s.sessionless id j = false ↔
      (kind.resumableAt status = true → j.sessionFile.isSome = true) := by
  simp only [sessionless, hopen, hkind, hstatus, Option.any_some, Bool.true_and]
  cases j.sessionFile <;> simp

/-- The sweep leaves nothing stranded exactly where nothing continuable lacks its session. -/
theorem noneStranded_swept_iff (hlive : s.JobsLive) :
    s.retireStrandedSuspensions.1.NoneStranded ↔ s.sessionsKept = true := by
  rw [sessionsKept_iff]
  constructor
  · intro h id j hj
    cases hless : s.sessionless id j with
    | false => rfl
    | true =>
      simp only [sessionless, Bool.and_eq_true] at hless
      obtain ⟨⟨hopen, hsession⟩, hat⟩ := hless
      split at hat
      · cases hat
      · rename_i kind hkind
        obtain ⟨status, hstatus, hat⟩ := (Option.any_eq_true _ _).1 hat
        have hkept := (stranded_iff (hlive id j hj) hkind hstatus hopen).2
          (FindingJobKind.keptAt_iff.2 (Or.inl hat))
        obtain ⟨hj', hopen'⟩ := openSuspension_swept.2 ⟨hj, hopen, hkept⟩
        rcases h id j kind status hj' hopen' hkind
          (statusOf_retireStrandedSuspensions.trans hstatus) with hoffered | ⟨rfl, rfl | rfl⟩
        · rw [resumable_retireStrandedSuspensions] at hoffered
          have hsome := ((resumable_iff (hlive id j hj) hkind hstatus hopen).1 hoffered).1
          cases hfile : j.sessionFile <;> simp_all
        · cases hat
        · cases hat
  · intro h id j kind status hj' hopen' hkind hstatus'
    obtain ⟨hj, hopen, hkept⟩ := openSuspension_swept.1 ⟨hj', hopen'⟩
    have hstatus := statusOf_retireStrandedSuspensions.symm.trans hstatus'
    have hat := (stranded_iff (hlive id j hj) hkind hstatus hopen).1 hkept
    rcases FindingJobKind.keptAt_iff.1 hat with hat | hheld
    · have hsession := (not_sessionless_iff hkind hstatus hopen).1 (h id j hj) hat
      rw [resumable_retireStrandedSuspensions]
      exact Or.inl ((resumable_iff (hlive id j hj) hkind hstatus hopen).2 ⟨hsession, hat⟩)
    · exact Or.inr hheld

end Store

section
variable {β : Type} {c : StoreCall β} {s s' : Store} {b : β}

theorem repoJobsBare_apply {a : Memory} (h : c.apply s = some (b, s')) (hallow : c.allowed a)
    (hbare : s.RepoJobsBare) : s'.RepoJobsBare := by
  intro id j' kind hj' hkind
  rcases StoreCall.job_cases h (fair_of_allowed hallow) hj' with ⟨j, hj, hchange⟩ | hinsert
  · rw [hchange.findingId]
    exact hbare id j kind hj (hchange.kind.symm.trans hkind)
  · cases c with
    | createJob k repoId findingId state resumedFrom =>
      obtain ⟨-, -, rfl⟩ := hinsert
      obtain rfl : k = .repo kind := hkind
      exact hallow.2.work
    | _ => exact hinsert.elim

end

theorem repoJobsBare_call {β : Type} {a : Memory} {c : Call β} {w w' : World} {b : β}
    (hallow : c.allowed a) (hbare : w.store.RepoJobsBare) (h : CallStep c w b w') :
    w'.store.RepoJobsBare := by
  cases c with
  | ask q =>
    rw [show w' = w from h.leaves]
    exact hbare
  | tree c =>
    rw [show w'.store = w.store from h.leaves]
    exact hbare
  | store c =>
    rcases h.leaves with ⟨b', s', rfl, happly, rfl⟩ | ⟨-, rfl⟩
    · exact repoJobsBare_apply happly hallow hbare
    · exact hbare

theorem repoJobsBare_invariant :
    Machine.Invariant daemon follower fun _ w => w.store.RepoJobsBare where
  init w hw := by
    cases hw
    exact fun id j kind hj => by simp [Store.job?] at hj
  call a c w b w' hallow := repoJobsBare_call hallow
  finish a phase w _ hbare := hbare
  abort a w _ hbare := hbare
  crash a p w _ _ hbare := hbare
  env a w w' hbare henv := by
    cases henv with
    | treeLost => exact hbare
    | request haccept =>
      intro id j kind hj
      rw [Store.job?, haccept.jobs] at hj
      exact hbare id j kind hj

/-- After a sweep of a reachable database every suspension of a finding's job is offered, held
or claimed, exactly where no continuable one lacks its session; it changes no offer. -/
theorem suspensions_placed_iff {x : Config daemon} (hx : daemon.Reachable x) :
    (x.state.store.retireStrandedSuspensions.1.NoneStranded ∧
      x.state.store.SameOffers x.state.store.retireStrandedSuspensions.1) ↔
    x.state.store.sessionsKept = true := by
  obtain ⟨-, -, hlive⟩ := jobsLive_invariant.reachable hx
  obtain ⟨-, -, hbare⟩ := repoJobsBare_invariant.reachable hx
  rw [← Store.noneStranded_swept_iff hlive]
  exact and_iff_left (Store.sameOffers_swept hlive hbare)

theorem suspensions_placed_paused :
    pausedFix.state.store.retireStrandedSuspensions.1.NoneStranded ∧
      pausedFix.state.store.SameOffers pausedFix.state.store.retireStrandedSuspensions.1 :=
  (suspensions_placed_iff reachable_pausedFix).2 (by decide +kernel)

def stillborn : Outside where
  run := { killedReason := none, exitCode := some 1, tokensNew := 0, sessionFile := none,
           stdoutTail := [] }
  committed := false

def requeuedBare : Config daemon :=
  requested (fun s => s.applyVerdict 0 .blocked .queued none)
    (playDaemon (List.replicate 12 stillborn) queuedFinding)

theorem reachable_requeuedBare : daemon.Reachable requeuedBare :=
  reachable_requested (r := .verdict 0 .queued none)
    (reachable_playDaemon reachable_queuedFinding) (.verdict rfl rfl (by decide) (by decide))

/-- The requeued fix is neither offered nor retired. -/
theorem suspensions_misplaced : ¬ ∀ x : Config daemon, daemon.Reachable x →
    x.state.store.retireStrandedSuspensions.1.NoneStranded ∧
      x.state.store.SameOffers x.state.store.retireStrandedSuspensions.1 := by
  intro h
  have hplaced := (h requeuedBare reachable_requeuedBare).1
  obtain ⟨-, -, hlive⟩ := jobsLive_invariant.reachable reachable_requeuedBare
  exact absurd ((Store.noneStranded_swept_iff hlive).1 hplaced) (by decide +kernel)

end Hunter
