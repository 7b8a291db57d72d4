import Hunter.Calls
set_option autoImplicit false

namespace Hunter

namespace Store
variable {s : Store}

theorem job?_retireAll {ids : List Nat} {state : JobState} {why : Text} {k : Nat} :
    (s.retireAll ids state why).job? k =
      if k ∈ ids then (s.job? k).map (Job.retire state (some why)) else s.job? k :=
  job?_foldl_modifyJob (g := Job.retire state (some why)) (fun _ => rfl) ids s k

theorem length_retireAll {ids : List Nat} {state : JobState} {why : Text} :
    (s.retireAll ids state why).jobs.length = s.jobs.length :=
  foldl_keeps (f := fun s id => s.retireJob id state (some why)) (g := fun s => s.jobs.length)
    (fun _ _ => length_modifyJob _ _ _) ids s

theorem mem_filter_rows {p : Row Job → Bool} {k : Nat} :
    k ∈ ((rows s.jobs).filter p).map Row.id ↔ ∃ j, s.job? k = some j ∧ p ⟨k, j⟩ = true := by
  simp only [List.mem_map, List.mem_filter, mem_rows]
  constructor
  · rintro ⟨row, ⟨hrow, hp⟩, rfl⟩
    exact ⟨row.val, hrow, hp⟩
  · rintro ⟨j, hj, hp⟩
    exact ⟨⟨k, j⟩, ⟨hj, hp⟩, rfl⟩

theorem hasSuccessor_iff {p : Nat} :
    s.hasSuccessor p = true ↔ ∃ id j, s.job? id = some j ∧ j.resumedFrom = some p := by
  simp only [hasSuccessor, List.any_eq_true, decide_eq_true_eq]
  constructor
  · rintro ⟨j, hj, hp⟩
    obtain ⟨id, hid⟩ := List.mem_iff_getElem?.1 hj
    exact ⟨id, j, hid, hp⟩
  · rintro ⟨id, j, hj, hp⟩
    exact ⟨j, List.mem_of_getElem? hj, hp⟩

theorem openSuspension_iff {id : Nat} {j : Job} :
    s.openSuspension id j = true ↔ j.state = .suspended ∧ s.hasSuccessor id = false := by
  simp [openSuspension]

theorem live_iff {id : Nat} {j : Job} : s.live id j = true ↔
    j.state = .running ∨ j.state = .suspended ∧ s.hasSuccessor id = false := by
  simp [live]

/-- The row `create_job` inserts. -/
def newJob (s : Store) (kind : JobKind) (repoId : Nat) (findingId : Option Nat) (state : JobState)
    (resumedFrom : Option Nat) : Job :=
  { kind := kind, repoId := repoId, findingId := findingId, state := state
    resumedFrom := resumedFrom
    pinnedSha := (resumedFrom.bind s.job?).bind Job.pinnedSha
    blocker := (resumedFrom.bind s.job?).bind Job.blocker
    fullHistory := (resumedFrom.bind s.job?).any Job.fullHistory
    fullHuntRequest := (resumedFrom.bind s.job?).bind Job.fullHuntRequest }

/-- `create_job` inserts its row behind the others, and a fresh one retires suspensions. -/
theorem createJob_spec {kind : JobKind} {repoId : Nat} {findingId resumedFrom : Option Nat}
    {state : JobState} {s' : Store} {created : CreatedJob}
    (h : s.createJob kind repoId findingId state resumedFrom = some (s', created)) :
    created.id = s.jobs.length ∧ s'.jobs.length = s.jobs.length + 1 ∧
      s'.job? s.jobs.length = some (s.newJob kind repoId findingId state resumedFrom) ∧
      ∀ k j, s.job? k = some j → s'.job? k = some j ∨
        resumedFrom = none ∧ j.state = .suspended ∧
          s'.job? k = some (j.retire .killed (some "superseded".toList)) := by
  unfold createJob at h
  split at h
  · cases resumedFrom with
    | some p =>
      cases h
      refine ⟨rfl, by simp [addJob], by simp [job?_addJob, newJob], fun k j hj => Or.inl ?_⟩
      rw [job?_addJob, if_neg (by have := job?_lt hj; omega)]
      exact hj
    | none =>
      cases h
      refine ⟨rfl, ?_, ?_, fun k j hj => ?_⟩
      · rw [length_retireAll]
        simp [addJob]
      · rw [job?_retireAll, if_neg, job?_addJob, if_pos rfl]
        · rfl
        · rw [mem_filter_rows]
          simp
      · rw [job?_retireAll]
        have hold : (s.addJob (s.newJob kind repoId findingId state none)).job? k = some j := by
          rw [job?_addJob, if_neg (by have := job?_lt hj; omega)]
          exact hj
        split
        · rename_i hmem
          obtain ⟨j', hj', hp⟩ := mem_filter_rows.1 hmem
          cases hold.symm.trans hj'
          simp only [supersededBy, openSuspension, Bool.and_eq_true, decide_eq_true_eq] at hp
          refine Or.inr ⟨rfl, hp.2.1.1.1.1, ?_⟩
          rw [hj']
          rfl
        · exact Or.inl hold
  · cases h

/-- `block_fix_job` holds a fix job of the finding, and moves the finding to blocked. -/
theorem blockFixJob_spec {f id : Nat} {reason : Text} {s' : Store}
    (h : s.blockFixJob f id reason = some s') :
    ∃ j x, s.job? id = some j ∧ s.finding? f = some x ∧ j.findingId = some f ∧
      j.kind = .finding .fix ∧
      s' = (s.modifyJob id fun j' =>
        { j' with
          state := .suspended
          blocker := some reason
          sessionFile := j'.sessionFile.or ((j.resumedFrom.bind s.job?).bind Job.sessionFile) }
        ).modifyFinding f fun x =>
          { x with status := .blocked, fixAttempts := 0, lastFixFailure := none } := by
  unfold blockFixJob at h
  split at h
  · rename_i j x hj hx
    split at h
    · rename_i hown
      cases h
      exact ⟨j, x, hj, hx, hown.1, hown.2, rfl⟩
    · cases h
  · cases h

end Store

namespace StoreCall

/-- The moves of job `id`'s state a statement makes. -/
def jobMoves (id : Nat) (j : Job) (target : JobState) : {β : Type} → StoreCall β → Prop
  | _, .failUnstartedJob k | _, .failJob k => k = id ∧ target = .failed
  | _, .completeJob k outcome => k = id ∧ target = outcome.state
  | _, .suspendOrphan k _ _ => k = id ∧ target = .suspended
  | _, .orphanJob k => k = id ∧ target = .killed
  | _, .retireSuspendedJob k state _ => k = id ∧ target = state
  | _, .retireStrandedSuspensions => j.state = .suspended ∧ target = .killed
  | _, .createJob _ _ _ _ resumedFrom =>
    resumedFrom = none ∧ j.state = .suspended ∧ target = .killed
  | _, .blockFixJob f k _ =>
    k = id ∧ j.kind = .finding .fix ∧ j.findingId = some f ∧ target = .suspended
  | _, _ => False

/-- Whether a statement records what job `id` spent. -/
def spends (id : Nat) : {β : Type} → StoreCall β → Prop
  | _, .completeJob k _ | _, .suspendOrphan k _ _ => k = id
  | _, _ => False

def blocks (id : Nat) : {β : Type} → StoreCall β → Prop
  | _, .blockFixJob _ k _ => k = id
  | _, _ => False

/-- Whether a statement writes this session on job `id`'s row. -/
def writesSession (id : Nat) (j : Job) (session : Option Text) : {β : Type} → StoreCall β → Prop
  | _, .completeJob k outcome => k = id ∧ session = outcome.sessionFile
  | _, .suspendOrphan k file _ => k = id ∧ session = some file
  | _, .blockFixJob _ k _ => k = id ∧ j.sessionFile = none
  | _, _ => False

def pins (id : Nat) : {β : Type} → StoreCall β → Prop
  | _, .setPinnedSha k _ => k = id
  | _, _ => False

/-- Whether a statement marks job `id`'s chain as one over the complete history. -/
def marksFull (id : Nat) (request : Option Int) : {β : Type} → StoreCall β → Prop
  | _, .markFullHistory k r => k = id ∧ request = r
  | _, _ => False

/-- The row a statement inserts as job `id`. -/
def inserts (s : Store) (id : Nat) (j : Job) : {β : Type} → StoreCall β → β → Prop
  | _, .createJob kind repoId findingId state resumedFrom, b =>
    id = s.jobs.length ∧ b.map CreatedJob.id = some id ∧
      j = s.newJob kind repoId findingId state resumedFrom
  | _, _, _ => False

end StoreCall

/-- How a statement may change a job's row. -/
structure JobChange {β : Type} (c : StoreCall β) (id : Nat) (j j' : Job) : Prop where
  kind : j'.kind = j.kind
  repoId : j'.repoId = j.repoId
  findingId : j'.findingId = j.findingId
  resumedFrom : j'.resumedFrom = j.resumedFrom
  state : j'.state = j.state ∨ c.jobMoves id j j'.state
  counted : c.spends id ∨ (j'.counted → j.counted)
  tokens : c.spends id ∨ j'.tokensNew = j.tokensNew
  blocker : j'.blocker = j.blocker ∨ c.blocks id ∧ j'.blocker.isSome
  session : j'.sessionFile = j.sessionFile ∨ c.writesSession id j j'.sessionFile
  pinned : j'.pinnedSha = j.pinnedSha ∨ c.pins id
  scope : j'.fullHistory = j.fullHistory ∧ j'.fullHuntRequest = j.fullHuntRequest ∨
    j'.fullHistory = true ∧ c.marksFull id j'.fullHuntRequest

namespace JobChange
variable {β : Type} {c : StoreCall β} {id : Nat} {j : Job}

theorem refl (c : StoreCall β) (id : Nat) (j : Job) : JobChange c id j j :=
  ⟨rfl, rfl, rfl, rfl, Or.inl rfl, Or.inr fun h => h, Or.inr rfl, Or.inl rfl, Or.inl rfl,
    Or.inl rfl, Or.inl ⟨rfl, rfl⟩⟩

/-- A move of the state that leaves the reason of an earlier kill, or names no cap. -/
theorem ofState {j' : Job} (hj : j' = { j with state := j'.state, killedReason := j'.killedReason })
    (hreason : j'.killedReason = j.killedReason ∨ j'.killedReason ≠ some "cap".toList)
    (hmoves : c.jobMoves id j j'.state) : JobChange c id j j' := by
  rw [hj]
  refine ⟨rfl, rfl, rfl, rfl, Or.inr hmoves, Or.inr fun h => ?_, Or.inr rfl, Or.inl rfl, Or.inl rfl,
    Or.inl rfl, Or.inl ⟨rfl, rfl⟩⟩
  rcases hreason with hreason | hreason
  · rw [hreason] at h
    exact h
  · simp only [Job.counted, hreason, Bool.or_eq_true, decide_eq_true_eq, or_false] at h ⊢
    tauto

end JobChange

theorem Job.retire_reason {state : JobState} {why : Option Text} {j : Job}
    (h : why ≠ some "cap".toList) :
    (j.retire state why).killedReason = j.killedReason ∨
      (j.retire state why).killedReason ≠ some "cap".toList := by
  cases why with
  | none => exact Or.inl rfl
  | some why => exact Or.inr h

def StoreCall.fairReason : {β : Type} → StoreCall β → Prop
  | _, .retireSuspendedJob _ _ why => why ≠ some "cap".toList
  | _, _ => True

namespace Store
variable {s s' : Store} {R : Nat → Job → Job → Prop}

theorem jobs_upsertFinding {repoId : Nat} {row : FindingInsert} {type : FindingType} :
    (s.upsertFinding repoId row type).1.jobs = s.jobs := by
  unfold upsertFinding
  split <;> rfl

theorem jobs_handOver {acc : Store × Nat} {pair : Nat × Nat} :
    (Store.handOver acc pair).1.jobs = acc.1.jobs := by
  unfold handOver
  dsimp only
  split
  · exact jobs_updateFindingIf.trans jobs_updateFindingIf
  · rfl

theorem jobs_foldl_handOver {pairs : List (Nat × Nat)} {acc : Store × Nat} :
    (pairs.foldl Store.handOver acc).1.jobs = acc.1.jobs := by
  induction pairs generalizing acc with
  | nil => rfl
  | cons pair rest ih => exact ih.trans jobs_handOver

theorem jobs_modifyJob (hR : ∀ id j, R id j j) {i : Nat} {g : Job → Job}
    (hg : ∀ j, s.job? i = some j → R i j (g j)) {id : Nat} {j : Job} (hj : s.job? id = some j) :
    ∃ j', (s.modifyJob i g).job? id = some j' ∧ R id j j' := by
  rw [job?_modifyJob]
  split
  · rename_i hi
    subst hi
    exact ⟨g j, by simp [hj], hg j hj⟩
  · exact ⟨j, hj, hR id j⟩

end Store

open Store in
/-- A statement keeps every job, and changes it in its own way only. -/
theorem StoreCall.jobEdits {β : Type} {c : StoreCall β} {s s' : Store} {b : β} {id : Nat} {j : Job}
    (h : c.apply s = some (b, s')) (hfair : c.fairReason) (hj : s.job? id = some j) :
    ∃ j', s'.job? id = some j' ∧ JobChange c id j j' := by
  have hrefl := JobChange.refl c
  have hsame : s'.jobs = s.jobs → ∃ j', s'.job? id = some j' ∧ JobChange c id j j' := by
    intro hjobs
    refine ⟨j, ?_, hrefl id j⟩
    rw [Store.job?, hjobs]
    exact hj
  cases c with
  | createJob kind repoId findingId state resumedFrom =>
    simp only [apply] at h
    split at h
    · rename_i hcreate
      cases h
      obtain ⟨-, -, -, hold⟩ := createJob_spec hcreate
      rcases hold id j hj with hj' | ⟨hfrom, hsusp, hj'⟩
      · exact ⟨j, hj', hrefl id j⟩
      · exact ⟨_, hj', .ofState rfl (Job.retire_reason (by decide)) ⟨hfrom, hsusp, rfl⟩⟩
    · cases h
      exact hsame rfl
  | retireStrandedSuspensions =>
    cases h
    simp only [Store.retireStrandedSuspensions, job?_retireAll, mem_filter_rows]
    split
    · rename_i hmem
      obtain ⟨j0, hj0, hstranded⟩ := hmem
      cases hj.symm.trans hj0
      simp only [Store.stranded, Store.openSuspension, Bool.and_eq_true, decide_eq_true_eq]
        at hstranded
      refine ⟨_, by rw [hj]; rfl, .ofState rfl (Job.retire_reason (by decide)) ?_⟩
      exact ⟨hstranded.1.1.1, rfl⟩
    · exact ⟨j, hj, hrefl id j⟩
  | blockFixJob f k reason =>
    simp only [apply, Option.map_eq_some_iff] at h
    obtain ⟨t, ht, hts⟩ := h
    cases hts
    obtain ⟨j0, x, hj0, -, hown, hkind, rfl⟩ := blockFixJob_spec ht
    refine jobs_modifyJob hrefl (fun j hj => ?_) hj
    cases hj0.symm.trans hj
    refine ⟨rfl, rfl, rfl, rfl, Or.inr ⟨rfl, hkind, hown, rfl⟩, Or.inr fun h => h, Or.inr rfl,
      Or.inr ⟨rfl, rfl⟩, ?_, Or.inl rfl, Or.inl ⟨rfl, rfl⟩⟩
    cases hsession : j0.sessionFile with
    | some file => exact Or.inl (by simp)
    | none => exact Or.inr ⟨rfl, hsession⟩
  | failUnstartedJob | failJob =>
    cases h
    refine jobs_modifyJob hrefl (fun j _ => ?_) hj
    exact .ofState rfl (Or.inl rfl) ⟨rfl, rfl⟩
  | orphanJob =>
    cases h
    refine jobs_modifyJob hrefl (fun j _ => ?_) hj
    exact .ofState rfl (Or.inr (show some "orphaned".toList ≠ _ by decide)) ⟨rfl, rfl⟩
  | setPinnedSha =>
    cases h
    refine jobs_modifyJob hrefl (fun j _ => ?_) hj
    exact ⟨rfl, rfl, rfl, rfl, Or.inl rfl, Or.inr fun h => h, Or.inr rfl, Or.inl rfl, Or.inl rfl,
      Or.inr rfl, Or.inl ⟨rfl, rfl⟩⟩
  | markFullHistory =>
    cases h
    refine jobs_modifyJob hrefl (fun j _ => ?_) hj
    exact ⟨rfl, rfl, rfl, rfl, Or.inl rfl, Or.inr fun h => h, Or.inr rfl, Or.inl rfl, Or.inl rfl,
      Or.inl rfl, Or.inr ⟨rfl, rfl, rfl⟩⟩
  | completeJob | suspendOrphan =>
    cases h
    refine jobs_modifyJob hrefl (fun j _ => ?_) hj
    exact ⟨rfl, rfl, rfl, rfl, Or.inr ⟨rfl, rfl⟩, Or.inl rfl, Or.inl rfl, Or.inl rfl,
      Or.inr ⟨rfl, rfl⟩, Or.inl rfl, Or.inl ⟨rfl, rfl⟩⟩
  | retireSuspendedJob k state why =>
    cases h
    refine jobs_modifyJob hrefl (fun j _ => ?_) hj
    exact .ofState rfl (Job.retire_reason hfair) ⟨rfl, rfl⟩
  | claimInProgress | recordClosedHarvest | reopenSuppressed | refreshDepUpdate
  | reconfirmAnchor =>
    cases h
    exact hsame jobs_updateFindingIf
  | upsertFinding =>
    cases h
    exact hsame jobs_upsertFinding
  | handOverQueuedDepUpdates =>
    cases h
    exact hsame jobs_foldl_handOver
  | forgetDeletedRepo =>
    cases h
    exact hsame jobs_forgetDeletedRepo
  | _ =>
    cases h
    exact hsame rfl

open Store in
/-- Only `create_job` inserts a job. -/
theorem StoreCall.inserted {β : Type} {c : StoreCall β} {s s' : Store} {b : β}
    (h : c.apply s = some (b, s')) :
    s'.jobs.length = s.jobs.length ∨
      s'.jobs.length = s.jobs.length + 1 ∧
        ∃ j, c.inserts s s.jobs.length j b ∧ s'.job? s.jobs.length = some j := by
  cases c with
  | createJob kind repoId findingId state resumedFrom =>
    simp only [apply] at h
    split at h
    · rename_i hcreate
      cases h
      obtain ⟨hid, hlen, hnew, -⟩ := createJob_spec hcreate
      exact Or.inr ⟨hlen, _, ⟨rfl, by simp [hid], rfl⟩, hnew⟩
    · cases h
      exact Or.inl rfl
  | retireStrandedSuspensions =>
    cases h
    exact Or.inl length_retireAll
  | blockFixJob f id reason =>
    simp only [apply, Option.map_eq_some_iff] at h
    obtain ⟨t, ht, hts⟩ := h
    cases hts
    obtain ⟨j0, x, -, -, -, -, rfl⟩ := blockFixJob_spec ht
    exact Or.inl (by simp)
  | failUnstartedJob | failJob | orphanJob | setPinnedSha | markFullHistory | completeJob
  | suspendOrphan | retireSuspendedJob =>
    cases h
    exact Or.inl (length_modifyJob _ _ _)
  | claimInProgress | recordClosedHarvest | reopenSuppressed | refreshDepUpdate
  | reconfirmAnchor =>
    cases h
    exact Or.inl (congrArg List.length jobs_updateFindingIf)
  | upsertFinding =>
    cases h
    exact Or.inl (congrArg List.length jobs_upsertFinding)
  | handOverQueuedDepUpdates =>
    cases h
    exact Or.inl (congrArg List.length jobs_foldl_handOver)
  | forgetDeletedRepo =>
    cases h
    exact Or.inl (congrArg List.length jobs_forgetDeletedRepo)
  | _ =>
    cases h
    exact Or.inl rfl

theorem StoreCall.created_of_apply {s s' : Store} {kind : JobKind} {repoId : Nat}
    {findingId resumedFrom : Option Nat} {state : JobState} {created : CreatedJob}
    (h : (StoreCall.createJob kind repoId findingId state resumedFrom).apply s =
      some (some created, s')) :
    s.createJob kind repoId findingId state resumedFrom = some (s', created) := by
  simp only [StoreCall.apply] at h
  split at h
  · cases h
    assumption
  · cases h

section
variable {β : Type} {c : StoreCall β} {s s' : Store} {b : β}

/-- What a statement leaves a job as: what it was, changed its way, or a new job. -/
theorem StoreCall.job_cases {id : Nat} {j' : Job} (h : c.apply s = some (b, s'))
    (hfair : c.fairReason) (hj' : s'.job? id = some j') :
    (∃ j, s.job? id = some j ∧ JobChange c id j j') ∨ c.inserts s id j' b := by
  cases hj : s.job? id with
  | some j =>
    obtain ⟨j'', hj'', hchange⟩ := StoreCall.jobEdits h hfair hj
    cases hj'.symm.trans hj''
    exact Or.inl ⟨j, rfl, hchange⟩
  | none =>
    have hge : s.jobs.length ≤ id := by simpa [Store.job?] using hj
    have hlt := Store.job?_lt hj'
    rcases StoreCall.inserted h with hlen | ⟨hlen, j, hinsert, hnew⟩
    · omega
    · obtain rfl : id = s.jobs.length := by omega
      cases hj'.symm.trans hnew
      exact Or.inr hinsert

theorem StoreCall.inserts_id {id : Nat} {j : Job} (h : c.inserts s id j b) :
    id = s.jobs.length := by
  cases c <;> first | exact h.1 | cases h

def StoreCall.creates (kind : JobKind) (findingId : Option Nat) : {β : Type} → StoreCall β → Prop
  | _, .createJob k _ g _ _ => k = kind ∧ g = findingId
  | _, _ => False

theorem StoreCall.inserts_creates {id : Nat} {j : Job} (h : c.inserts s id j b) :
    c.creates j.kind j.findingId := by
  cases c <;> first | (rw [h.2.2]; exact ⟨rfl, rfl⟩) | cases h

def StoreCall.continues : {β : Type} → StoreCall β → Option Nat
  | _, .createJob _ _ _ _ resumedFrom => resumedFrom
  | _, _ => none

theorem StoreCall.inserts_resumedFrom {id : Nat} {j : Job} (h : c.inserts s id j b) :
    j.resumedFrom = c.continues := by
  cases c <;> first | (rw [h.2.2]; rfl) | cases h

theorem StoreCall.successor {p : Nat} (h : c.apply s = some (b, s')) (hfair : c.fairReason)
    (hp : s'.hasSuccessor p = true) : s.hasSuccessor p = true ∨ c.continues = some p := by
  obtain ⟨id, j', hj', hfrom⟩ := Store.hasSuccessor_iff.1 hp
  rcases StoreCall.job_cases h hfair hj' with ⟨j, hj, hchange⟩ | hinsert
  · refine Or.inl (Store.hasSuccessor_iff.2 ⟨id, j, hj, ?_⟩)
    rw [← hchange.resumedFrom]
    exact hfrom
  · refine Or.inr ?_
    rw [← StoreCall.inserts_resumedFrom hinsert]
    exact hfrom

theorem StoreCall.successor_stays {p : Nat} (h : c.apply s = some (b, s')) (hfair : c.fairReason)
    (hp : s.hasSuccessor p = true) : s'.hasSuccessor p = true := by
  obtain ⟨id, j, hj, hfrom⟩ := Store.hasSuccessor_iff.1 hp
  obtain ⟨j', hj', hchange⟩ := StoreCall.jobEdits h hfair hj
  exact Store.hasSuccessor_iff.2 ⟨id, j', hj', hchange.resumedFrom.trans hfrom⟩

end

end Hunter
