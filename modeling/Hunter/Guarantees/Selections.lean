import Hunter.Effect.Runs
import Hunter.Guarantees.HeldFixes
import Mathlib.Data.Finset.Card
set_option autoImplicit false

namespace Hunter
open Effect

/-! Every selection that starts over has retired a suspension, and what one returns is still in
its tier. -/

def Finding.flagged (x : Finding) : Bool :=
  x.status = .prOpen && x.prState.any fun p => p.needsAttention.isSome

def FindingJobKind.waits (x : Finding) : FindingJobKind → Bool
  | .recheck => x.status = .rechecking
  | .engage => x.flagged
  | .harvest => Store.pendingHarvest x
  | .fix => x.status = .queued

def ResumeChainStats.overCeiling (chain : ResumeChainStats) (z : Int) : Bool :=
  chain.tooMany || chain.tooCostly z

namespace Store

def InTier (s : Store) (kind : FindingJobKind) (fid : Nat) : Prop :=
  ∃ x, s.finding? fid = some x ∧ kind.waits x = true

/-- Job `id` is a row of `list_resumable_jobs`. -/
def Resumable (s : Store) (id : Nat) : Prop := ∃ j, s.job? id = some j ∧ s.resumable id j = true

def Narrows (s s' : Store) : Prop := ∀ id, s'.Resumable id → s.Resumable id

/-- A resumable chain has been retired for good, and nothing has become resumable. -/
def GaveUp (s s' : Store) : Prop :=
  s.Narrows s' ∧ ∃ id, s.Resumable id ∧ ¬ s'.Resumable id ∧
    (s'.job? id).bind Job.killedReason = some "give-up".toList

/-- The plan continues a resumable job; above the ceiling `z` gives it, a fix with a blocker. -/
structure Continuable (s : Store) (z : Nat → JobKind → Int) (plan : ResumePlan) : Prop where
  offered : ∃ j, s.job? plan.predecessorId = some j ∧ s.resumable plan.predecessorId j = true ∧
    j.kind = plan.kind ∧ j.repoId = plan.repoId ∧ j.findingId = plan.findingId ∧
      j.sessionFile = some plan.sessionFile
  ceiling : (s.resumeChainStats plan.predecessorId).overCeiling (z plan.repoId plan.kind) = true →
    plan.kind = .finding .fix ∧ (s.jobBlocker plan.predecessorId).isSome

end Store

def Query.estimates (z : Nat → JobKind → Int) : {β : Type} → Query β → β → Prop
  | _, .anticipatedTokens repoId kind, b => b = z repoId kind
  | _, _, _ => True

def Call.estimates (z : Nat → JobKind → Int) : {β : Type} → Call β → β → Prop
  | _, .ask q, b => q.estimates z b
  | _, _, _ => True

/-- A step of the daemon while a job's estimate is what `z` says. -/
def EstimatedStep (z : Nat → JobKind → Int) {β : Type} (c : Call β) (w : World) (b : β)
    (w' : World) : Prop :=
  CallStep c w b w' ∧ c.estimates z b

/-- Whatever its trees and the answers it gets, the program leaves the database in `Q`. -/
def Yields (z : Nat → JobKind → Int) {α : Type} (p : Act α) (s : Store)
    (Q : Except Text α → Store → Prop) : Prop :=
  ∀ w, w.store = s → Post (EstimatedStep z) p w fun r w' => Q r w'.store

section
variable {z : Nat → JobKind → Int} {α β : Type} {s : Store} {Q : Except Text α → Store → Prop}

theorem yields_done {x : α} (h : Q (.ok x) s) : Yields z (.done x) s Q := by
  rintro w rfl
  exact post_done h

theorem yields_fail {e : Text} (h : Q (.error e) s) : Yields z (.fail e) s Q := by
  rintro w rfl
  exact post_fail h

theorem Yields.mono {p : Act α} {Q' : Except Text α → Store → Prop} (h : Yields z p s Q)
    (hQ : ∀ r t, Q r t → Q' r t) : Yields z p s Q' :=
  fun w hw r w' hrun => hQ _ _ (h w hw r w' hrun)

theorem yields_bind {p : Act β} {f : β → Act α}
    (h : Yields z p s (onOk (fun x t => Yields z (f x) t Q) Q)) : Yields z (p >>= f) s Q := by
  intro w hw
  refine post_bind fun r w' hrun => ?_
  have hp := h w hw r w' hrun
  cases r with
  | ok x => exact hp w' rfl
  | error e => exact hp

theorem yields_attempt {p : Act β} {Q : Except Text (Except Text β) → Store → Prop}
    (h : Yields z p s fun r t => Q (.ok r) t) : Yields z p.attempt s Q :=
  fun w hw => post_attempt (h w hw)

theorem yields_store {c : StoreCall β} {k : Except Text β → Act α}
    (hok : ∀ b s', c.apply s = some (b, s') → Yields z (k (.ok b)) s' Q)
    (herr : ∀ e, Yields z (k (.error e)) s Q) : Yields z (.call (.store c) k) s Q := by
  rintro w rfl
  refine post_call fun b w' hstep => ?_
  rcases hstep.1.leaves with ⟨b', s', rfl, happly, rfl⟩ | ⟨⟨e, rfl⟩, rfl⟩
  · exact hok b' s' happly _ rfl
  · exact herr e _ rfl

theorem yields_sql {c : StoreCall α} (hok : ∀ b s', c.apply s = some (b, s') → Q (.ok b) s')
    (herr : ∀ e, Q (.error e) s) : Yields z (sql c) s Q :=
  yields_store (fun b s' h => yields_done (hok b s' h)) fun e => yields_fail (herr e)

theorem yields_sqlResult {c : StoreCall β} {Q : Except Text (Except Text β) → Store → Prop}
    (hok : ∀ b s', c.apply s = some (b, s') → Q (.ok (.ok b)) s')
    (herr : ∀ e, Q (.ok (.error e)) s) : Yields z (sqlResult c) s Q :=
  yields_store (fun b s' h => yields_done (hok b s' h)) fun e => yields_done (herr e)

theorem yields_log {c : StoreCall β} {Q : Except Text Unit → Store → Prop}
    (hok : ∀ b s', c.apply s = some (b, s') → Q (.ok ()) s') (herr : Q (.ok ()) s) :
    Yields z (logWriteFailure c) s Q :=
  yields_store (fun b s' h => yields_done (hok b s' h)) fun _ => yields_done herr

theorem yields_ask {q : Query α} (h : ∀ b, q.estimates z b → Q (.ok b) s) :
    Yields z (ask q) s Q := by
  rintro w rfl
  refine post_call fun b w' hstep => post_done ?_
  rw [show w' = w from hstep.1.leaves]
  exact h b hstep.2

theorem yields_tryAsk {q : Query (Except Text α)} (h : ∀ b, Q b s) :
    Yields z (tryAsk q) s Q := by
  rintro w rfl
  refine post_call fun b w' hstep => ?_
  have hb := h b
  rw [show w' = w from hstep.1.leaves]
  cases b with
  | ok b => exact post_done hb
  | error e => exact post_fail hb

theorem yields_tree {c : TreeCall α} (h : ∀ b, Q (.ok b) s) : Yields z (tree c) s Q := by
  rintro w rfl
  refine post_call fun b w' hstep => post_done ?_
  rw [show w'.store = w.store from hstep.1.leaves]
  exact h b

end

namespace Store
variable {s s' s'' : Store}

/-- The same jobs and repos, and every finding still where its tier reads it. -/
structure Alike (s s' : Store) : Prop where
  jobs : s'.jobs = s.jobs
  repos : s'.repos = s.repos
  status : ∀ f, s'.statusOf f = s.statusOf f
  tier : ∀ kind fid, s.InTier kind fid → s'.InTier kind fid

theorem Alike.refl (s : Store) : s.Alike s :=
  ⟨rfl, rfl, fun _ => rfl, fun _ _ h => h⟩

theorem Alike.trans (h : s.Alike s') (h' : s'.Alike s'') : s.Alike s'' where
  jobs := h'.jobs.trans h.jobs
  repos := h'.repos.trans h.repos
  status f := (h'.status f).trans (h.status f)
  tier kind fid hin := h'.tier kind fid (h.tier kind fid hin)

theorem Narrows.trans (h : s.Narrows s') (h' : s'.Narrows s'') : s.Narrows s'' :=
  fun id hid => h id (h' id hid)

theorem job?_of_jobs (h : s'.jobs = s.jobs) (id : Nat) : s'.job? id = s.job? id := by
  rw [job?, h, job?]

/-- Whether a job is resumable is read off the jobs, the repos and the findings' statuses. -/
theorem resumable_eq {id : Nat} {j : Job} (hjobs : s'.jobs = s.jobs) (hrepos : s'.repos = s.repos)
    (hstatus : ∀ f, s'.statusOf f = s.statusOf f) : s'.resumable id j = s.resumable id j := by
  simp only [resumable, openSuspension, hasSuccessor, repo?, hjobs, hrepos, hstatus]

theorem narrows_of_status (hjobs : s'.jobs = s.jobs) (hrepos : s'.repos = s.repos)
    (hstatus : ∀ f, s'.statusOf f = s.statusOf f) : s.Narrows s' := by
  rintro id ⟨j, hj, hresumable⟩
  exact ⟨j, (job?_of_jobs hjobs id).symm.trans hj,
    (resumable_eq hjobs hrepos hstatus).symm.trans hresumable⟩

theorem Alike.narrows (h : s.Alike s') : s.Narrows s' :=
  narrows_of_status h.jobs h.repos h.status

theorem statusOf_modifyFinding {f : Nat} {g : Finding → Finding}
    (hg : ∀ x, (g x).status = x.status) (k : Option Nat) :
    (s.modifyFinding f g).statusOf k = s.statusOf k := by
  cases k with
  | none => rfl
  | some k =>
    simp only [statusOf, Option.bind_some, finding?_modifyFinding]
    split
    · cases s.finding? k with
      | none => rfl
      | some x => simp [hg]
    · rfl

theorem alike_modifyFinding {f : Nat} {g : Finding → Finding}
    (hstatus : ∀ x, (g x).status = x.status)
    (hwaits : ∀ x (kind : FindingJobKind), kind.waits (g x) = kind.waits x) :
    s.Alike (s.modifyFinding f g) where
  jobs := rfl
  repos := rfl
  status := statusOf_modifyFinding hstatus
  tier kind fid := by
    rintro ⟨x, hx, hin⟩
    by_cases hf : f = fid
    · exact ⟨g x, by simp [hf, hx], (hwaits x kind).trans hin⟩
    · exact ⟨x, by simp [hf, hx], hin⟩

theorem alike_setFixAttempts {f attempts : Nat} {failure : Option Text} :
    s.Alike (s.setFixAttempts f attempts failure) :=
  alike_modifyFinding (fun _ => rfl) fun _ kind => by cases kind <;> rfl

theorem alike_setRecheckAttempts {f attempts : Nat} {failure : Option Text} :
    s.Alike (s.setRecheckAttempts f attempts failure) :=
  alike_modifyFinding (fun _ => rfl) fun _ kind => by cases kind <;> rfl

theorem alike_setHarvestAttempts {f attempts : Nat} {failure : Option Text} :
    s.Alike (s.setHarvestAttempts f attempts failure) := by
  refine alike_modifyFinding (fun _ => rfl) fun x kind => ?_
  cases kind with
  | recheck => rfl
  | fix => rfl
  | engage =>
    simp only [FindingJobKind.waits, Finding.flagged, Finding.updatePr]
    cases x.prState <;> rfl
  | harvest =>
    simp only [FindingJobKind.waits, pendingHarvest, Finding.updatePr]
    cases x.prState <;> rfl

theorem narrows_moved {f : Nat} {g : Finding → Finding}
    (hg : ∀ x (kind : FindingJobKind), kind.resumableAt (g x).status = false) :
    s.Narrows (s.modifyFinding f g) := by
  rintro id ⟨j, hj, hresumable⟩
  refine ⟨j, hj, ?_⟩
  simp only [resumable, Bool.and_eq_true] at hresumable ⊢
  refine ⟨hresumable.1, ?_⟩
  have hat := hresumable.2
  cases hkind : j.kind with
  | repo kind => rfl
  | finding kind =>
    rw [hkind] at hat
    dsimp only at hat ⊢
    cases hfinding : j.findingId with
    | none =>
      rw [hfinding] at hat
      cases hat
    | some k =>
      simp only [hfinding, statusOf, Option.bind_some, finding?_modifyFinding] at hat ⊢
      split at hat
      · cases hx : s.finding? k with
        | none => simp [hx] at hat
        | some x => simp [hx, hg] at hat
      · exact hat

theorem hasSuccessor_modifyJob {id p : Nat} {g : Job → Job}
    (hg : ∀ j, (g j).resumedFrom = j.resumedFrom) :
    (s.modifyJob id g).hasSuccessor p = s.hasSuccessor p := by
  rw [Bool.eq_iff_iff, hasSuccessor_iff, hasSuccessor_iff]
  constructor
  · rintro ⟨k, j, hj, hfrom⟩
    rw [job?_modifyJob] at hj
    split at hj
    · obtain ⟨j0, hj0, rfl⟩ := Option.map_eq_some_iff.1 hj
      exact ⟨k, j0, hj0, (hg j0).symm.trans hfrom⟩
    · exact ⟨k, j, hj, hfrom⟩
  · rintro ⟨k, j, hj, hfrom⟩
    by_cases hk : id = k
    · exact ⟨k, g j, by simp [hk, hj], (hg j).trans hfrom⟩
    · exact ⟨k, j, by simp [hk, hj], hfrom⟩

theorem resumable_modifyJob {id k : Nat} {j : Job} {g : Job → Job}
    (hg : ∀ j, (g j).resumedFrom = j.resumedFrom) :
    (s.modifyJob id g).resumable k j = s.resumable k j := by
  simp only [resumable, openSuspension, hasSuccessor_modifyJob hg]
  rfl

theorem resumable_modifyJob_modifyFinding {id k f : Nat} {j : Job} {g : Job → Job}
    {h : Finding → Finding} (hg : ∀ j, (g j).resumedFrom = j.resumedFrom) :
    ((s.modifyJob id g).modifyFinding f h).resumable k j = (s.modifyFinding f h).resumable k j := by
  change ((s.modifyFinding f h).modifyJob id g).resumable k j = _
  exact resumable_modifyJob hg

theorem job?_retireJob_ne {id k : Nat} {state : JobState} {why : Option Text} (hne : k ≠ id) :
    (s.retireJob id state why).job? k = s.job? k := by
  rw [retireJob, job?_modifyJob, if_neg (Ne.symm hne)]

theorem resumable_retireJob {id k : Nat} {state : JobState} {why : Option Text} {j : Job} :
    (s.retireJob id state why).resumable k j = s.resumable k j :=
  resumable_modifyJob fun _ => rfl

theorem resumable_retired {id k : Nat} {state : JobState} {why : Option Text}
    (hstate : state ≠ .suspended) :
    (s.retireJob id state why).Resumable k ↔ k ≠ id ∧ s.Resumable k := by
  by_cases hk : k = id
  · subst hk
    refine ⟨?_, fun h => absurd rfl h.1⟩
    rintro ⟨j, hj, hresumable⟩
    rw [retireJob, job?_modifyJob, if_pos rfl] at hj
    obtain ⟨j0, -, rfl⟩ := Option.map_eq_some_iff.1 hj
    simp [resumable, openSuspension, Job.retire, hstate] at hresumable
  · simp only [Store.Resumable, job?_retireJob_ne hk, resumable_retireJob, ne_eq, hk,
      not_false_eq_true, true_and]

theorem narrows_retireJob {id : Nat} {state : JobState} {why : Option Text}
    (hstate : state ≠ .suspended) : s.Narrows (s.retireJob id state why) :=
  fun _ h => ((resumable_retired hstate).1 h).2

end Store

section
variable {z : Nat → JobKind → Int} {s : Store} {job : Row Job}

/-- A row of the list of resumable jobs, as the table has it. -/
def Store.Lists (s : Store) (job : Row Job) : Prop :=
  s.job? job.id = some job.val ∧ s.resumable job.id job.val = true

/-- What planning to resume `job` does: only a job given up or gone is written, and retired. -/
def Plans.Outcome (z : Nat → JobKind → Int) (s : Store) (job : Row Job) :
    Except Text Resumable → Store → Prop
  | .ok (.yes plan), s' =>
    s' = s ∧ s.Continuable z plan ∧ plan.kind = job.val.kind ∧ plan.findingId = job.val.findingId
  | .ok (.gaveUp _), s' => s' = s.retireJob job.id .failed (some "give-up".toList)
  | .ok .no, s' => s' = s ∨ s' = s.retireJob job.id .killed (some "workdir-gone".toList)
  | .error _, s' => s' = s

theorem yields_retireGone : Yields z (retireGone job) s (Plans.Outcome z s job) := by
  refine yields_bind (yields_log (fun b s' happly => ?_) ?_)
  · cases happly
    exact yields_done (Or.inr rfl)
  · exact yields_done (Or.inl rfl)

theorem yields_giveUpChain {why : Text} :
    Yields z (giveUpChain job why) s (Plans.Outcome z s job) := by
  refine yields_bind (yields_sqlResult (fun b s' happly => ?_) fun e => ?_)
  · cases happly
    exact yields_done rfl
  · exact yields_done (Or.inl rfl)

theorem yields_operatorRequeued : Yields z (operatorRequeued job) s fun r s' => s' = s ∧
    (r = .ok true → job.val.kind = .finding .fix ∧ (s.jobBlocker job.id).isSome) := by
  unfold operatorRequeued
  split
  · rename_i hfix
    refine yields_bind (yields_sql (fun b s' happly => ?_) fun e => ?_)
    · cases happly
      dsimp only [onOk]
      exact yields_done ⟨rfl, fun h => ⟨hfix, by simpa using h⟩⟩
    · exact And.intro rfl nofun
  · exact yields_done (And.intro rfl nofun)

theorem yields_planChain {repo : Repo} {plan : ResumePlan} (hlists : s.Lists job)
    (hid : plan.predecessorId = job.id) (hkind : plan.kind = job.val.kind)
    (hrepo : plan.repoId = job.val.repoId) (hfinding : plan.findingId = job.val.findingId)
    (hsession : job.val.sessionFile = some plan.sessionFile) :
    Yields z (planChain job repo plan) s (Plans.Outcome z s job) := by
  have hoffered : ∃ j, s.job? plan.predecessorId = some j ∧
      s.resumable plan.predecessorId j = true ∧ j.kind = plan.kind ∧ j.repoId = plan.repoId ∧
        j.findingId = plan.findingId ∧ j.sessionFile = some plan.sessionFile :=
    ⟨job.val, by rw [hid]; exact hlists.1, by rw [hid]; exact hlists.2, hkind.symm, hrepo.symm,
      hfinding.symm, hsession⟩
  refine yields_bind (yields_ask fun estimate hestimate => ?_)
  obtain rfl : estimate = z job.val.repoId job.val.kind := hestimate
  refine yields_bind (yields_sql (fun chain s' happly => ?_) fun e => rfl)
  cases happly
  dsimp only [onOk]
  split
  · refine yields_bind (yields_operatorRequeued.mono fun r t h => ?_)
    obtain ⟨rfl, hrequeued⟩ := h
    cases r with
    | error e => exact rfl
    | ok requeued =>
      cases requeued with
      | false => exact yields_giveUpChain
      | true =>
        obtain ⟨hfix, hblocker⟩ := hrequeued rfl
        refine yields_done ⟨rfl, ⟨hoffered, fun _ => ⟨hkind.trans hfix, ?_⟩⟩, hkind, hfinding⟩
        rw [hid]
        exact hblocker
  · rename_i hbelow
    refine yields_done ⟨rfl, ⟨hoffered, fun hover => absurd ?_ hbelow⟩, hkind, hfinding⟩
    rw [hid, hrepo, hkind] at hover
    exact hover

theorem yields_resumePlan (hlists : s.Lists job) :
    Yields z (resumePlan job) s (Plans.Outcome z s job) := by
  unfold resumePlan
  split
  · exact yields_done (Or.inl rfl)
  · rename_i session hsession
    refine yields_bind (yields_sql (fun repo s' happly => ?_) fun e => rfl)
    cases happly
    dsimp only [onOk]
    split
    · exact yields_done (Or.inl rfl)
    · refine yields_bind (yields_sql (fun origin s' happly => ?_) fun e => rfl)
      cases happly
      refine yields_bind (yields_sql (fun sha s' happly => ?_) fun e => rfl)
      cases happly
      dsimp only [onOk]
      split
      · exact yields_retireGone
      · refine yields_bind (yields_tree fun there => ?_)
        dsimp only [onOk]
        split
        · exact yields_retireGone
        · refine yields_bind (yields_ask fun inside _ => ?_)
          dsimp only [onOk]
          split
          · exact yields_retireGone
          · exact yields_planChain hlists rfl rfl rfl rfl hsession

end

section
variable {z : Nat → JobKind → Int} {s : Store} {fid job : Nat}

theorem yields_recordFixAttempt {failure : Text} :
    Yields z (recordFixAttempt fid failure) s fun _ s' => s.Alike s' := by
  refine yields_bind (yields_sql (fun f s' happly => ?_) fun e => Store.Alike.refl s)
  cases happly
  refine yields_bind (yields_sql (fun b s' happly => ?_) fun e => Store.Alike.refl s)
  cases happly
  exact yields_done Store.alike_setFixAttempts

theorem yields_recordRecheckAttempt {failure : Text} :
    Yields z (recordRecheckAttempt fid failure) s fun _ s' => s.Alike s' := by
  refine yields_bind (yields_sql (fun f s' happly => ?_) fun e => Store.Alike.refl s)
  cases happly
  refine yields_bind (yields_sql (fun b s' happly => ?_) fun e => Store.Alike.refl s)
  cases happly
  exact yields_done Store.alike_setRecheckAttempts

theorem yields_recordHarvestAttempt {failure : Text} :
    Yields z (recordHarvestAttempt fid failure) s fun _ s' => s.Alike s' := by
  refine yields_bind (yields_sql (fun f s' happly => ?_) fun e => Store.Alike.refl s)
  cases happly
  refine yields_bind (yields_sql (fun b s' happly => ?_) fun e => Store.Alike.refl s)
  cases happly
  exact yields_done Store.alike_setHarvestAttempts

/-- The finding has left its tier with nothing made resumable, and no job's reason has changed. -/
structure Store.Ended (s s' : Store) : Prop where
  narrows : s.Narrows s'
  reason : ∀ id, (s'.job? id).bind Job.killedReason = (s.job? id).bind Job.killedReason

theorem Store.Ended.trans {s s' s'' : Store} (h : s.Ended s') (h' : s'.Ended s'') :
    s.Ended s'' where
  narrows := h.narrows.trans h'.narrows
  reason id := (h'.reason id).trans (h.reason id)

theorem Store.Ended.of_jobs {s s' : Store} (hnarrows : s.Narrows s') (hjobs : s'.jobs = s.jobs) :
    s.Ended s' where
  narrows := hnarrows
  reason id := by rw [Store.job?_of_jobs hjobs]

theorem Store.Alike.ended {s s' : Store} (h : s.Alike s') : s.Ended s' :=
  .of_jobs h.narrows h.jobs

/-- What counting a given-up chain does: with `true` it has ended the finding's work. -/
def Counted.Outcome (s : Store) : Except Text Bool → Store → Prop
  | .ok false, s' => s.Alike s'
  | .ok true, s' => s.Ended s'
  | .error _, s' => s.Alike s'

theorem yields_handleRecheckFailure {failure : Text} :
    Yields z (handleRecheckFailure fid failure none) s (Counted.Outcome s) := by
  refine yields_bind (Yields.mono (Q := Counted.Outcome s) ?_ fun r s' h => ?_)
  · refine yields_bind (yields_attempt (yields_recordRecheckAttempt.mono fun r s1 h1 => ?_))
    cases r with
    | error e => exact yields_done h1
    | ok streak =>
      dsimp only [onOk]
      split
      · exact yields_done h1
      · refine yields_bind (yields_sqlResult (fun b s2 happly => ?_) fun e => yields_done h1)
        cases happly
        have h2 : s1.Ended (s1.setFindingStatus fid .new) :=
          .of_jobs (Store.narrows_moved fun _ kind => by cases kind <;> rfl) rfl
        refine yields_bind (yields_log (fun b s3 happly => ?_)
          (yields_done (h1.ended.trans h2)))
        cases happly
        exact yields_done ((h1.ended.trans h2).trans Store.alike_setRecheckAttempts.ended)
  · cases r with
    | ok stuck => exact yields_done h
    | error e => exact h

theorem yields_recordHarvestFailure {key : Text} :
    Yields z (recordHarvestFailure fid key) s (Counted.Outcome s) := by
  refine yields_bind (yields_attempt (yields_recordHarvestAttempt.mono fun r s1 h1 => ?_))
  cases r with
  | error e => exact yields_done h1
  | ok streak =>
    dsimp only [onOk]
    split
    · exact yields_done h1
    · refine yields_bind (yields_ask fun now _ => ?_)
      refine yields_bind (yields_sqlResult (fun b s2 happly => ?_) fun e => yields_done h1)
      cases happly
      have h2 : s1.Ended (s1.markPrHarvested fid now) :=
        .of_jobs (Store.narrows_of_status rfl rfl
          (Store.statusOf_modifyFinding fun _ => rfl)) rfl
      refine yields_bind (yields_log (fun b s3 happly => ?_) (yields_done (h1.ended.trans h2)))
      cases happly
      exact yields_done ((h1.ended.trans h2).trans Store.alike_setHarvestAttempts.ended)

theorem ended_blockFixJob {reason : Text} {s' : Store}
    (h : s.blockFixJob fid job reason = some s') : s.Ended s' := by
  obtain ⟨j, x, hj, -, hf, hkind, rfl⟩ := Store.blockFixJob_spec h
  have hmoved := @Store.narrows_moved s fid
    (fun x => { x with status := .blocked, fixAttempts := 0, lastFixFailure := none })
    fun _ kind => by cases kind <;> rfl
  constructor
  · rintro id ⟨k, hk, hresumable⟩
    rw [Store.job?_modifyFinding, Store.job?_modifyJob] at hk
    by_cases hid : job = id
    · -- the held job itself
      subst hid
      rw [if_pos rfl, hj] at hk
      cases hk
      simp only [Store.resumable, Bool.and_eq_true, hkind, hf, Store.statusOf, Option.bind_some,
        Store.finding?_modifyFinding, if_true] at hresumable
      obtain ⟨-, hat⟩ := hresumable
      simp only [Store.finding?_modifyJob, Option.map_map, Option.any_map] at hat
      cases hx : s.finding? fid with
      | none => simp [hx] at hat
      | some x => simp [hx, FindingJobKind.resumableAt] at hat
    · rw [if_neg hid] at hk
      refine hmoved id ⟨k, hk, ?_⟩
      rw [Store.resumable_modifyJob_modifyFinding] at hresumable
      · exact hresumable
      · exact fun _ => rfl
  · intro id
    rw [Store.job?_modifyFinding, Store.job?_modifyJob]
    split
    · cases s.job? id <;> rfl
    · rfl

theorem yields_recordFixFailure {failure detail : Text} (hqueued : s.InTier .fix fid) :
    Yields z (recordFixFailure fid job failure detail) s (Counted.Outcome s) := by
  refine yields_bind (yields_attempt (yields_recordFixAttempt.mono fun r s1 h1 => ?_))
  cases r with
  | error e => exact yields_done h1
  | ok streak =>
    dsimp only [onOk]
    split
    · exact yields_done h1
    · refine yields_bind (yields_bind (yields_sqlResult (fun b s2 happly => ?_) fun e => ?_))
      · simp only [StoreCall.apply, Option.map_eq_some_iff] at happly
        obtain ⟨t, ht, hts⟩ := happly
        cases hts
        have hended := h1.ended.trans (ended_blockFixJob ht)
        refine yields_done ?_
        exact yields_done hended
      · -- the failed hold releases a claim that is not there
        refine yields_bind (yields_log (fun b s2 happly => ?_) (yields_fail h1))
        obtain ⟨x, hx, hin⟩ := h1.tier _ _ hqueued
        have hnot : s1.claimInProgress fid .fixing .queued = (s1, false) := by
          have hstatus : x.status = .queued := by simpa [FindingJobKind.waits] using hin
          simp [Store.claimInProgress, Store.updateFindingIf, hx, hstatus]
        simp only [StoreCall.apply, hnot] at happly
        cases happly
        exact yields_fail h1

theorem yields_countGivenUpChain {kind : FindingJobKind} {why : Text} (hin : s.InTier kind fid) :
    Yields z (countGivenUpChain kind fid job why) s (Counted.Outcome s) := by
  cases kind with
  | recheck => exact yields_handleRecheckFailure
  | harvest => exact yields_recordHarvestFailure
  | fix =>
    refine yields_bind (yields_attempt ((yields_recordFixFailure hin).mono
      fun r s1 h1 => ?_))
    cases r with
    | error e => exact yields_done h1
    | ok blocked => exact yields_done h1
  | engage =>
    refine yields_bind (yields_ask fun now _ => ?_)
    refine yields_bind (yields_sqlResult (fun b s1 happly => ?_) fun e =>
      yields_done (Store.Alike.refl s))
    cases happly
    exact yields_done (.of_jobs (Store.narrows_of_status rfl rfl
      (Store.statusOf_modifyFinding fun _ => rfl)) rfl)

end

theorem Store.GaveUp.after {s s' s'' : Store} (h : s.Narrows s') (h' : s'.GaveUp s'') :
    s.GaveUp s'' := by
  obtain ⟨hnarrows, id, hid, hgone, hreason⟩ := h'
  exact ⟨h.trans hnarrows, id, h id hid, hgone, hreason⟩

theorem Store.Alike.lists {s s' : Store} {row : Row Job} (h : s.Alike s') (hrow : s.Lists row) :
    s'.Lists row :=
  ⟨(Store.job?_of_jobs h.jobs row.id).trans hrow.1,
    (Store.resumable_eq h.jobs h.repos h.status).trans hrow.2⟩

theorem Store.Lists.retire {s : Store} {row : Row Job} {id : Nat} {state : JobState}
    {why : Option Text} (h : s.Lists row) (hne : row.id ≠ id) :
    (s.retireJob id state why).Lists row :=
  ⟨(Store.job?_retireJob_ne hne).trans h.1, Store.resumable_retireJob.trans h.2⟩

theorem Store.InTier.retire {s : Store} {kind : FindingJobKind} {fid id : Nat} {state : JobState}
    {why : Option Text} (h : s.InTier kind fid) : (s.retireJob id state why).InTier kind fid := h

theorem lists_listResumableJobs {s : Store} {row : Row Job} (h : row ∈ s.listResumableJobs) :
    s.Lists row :=
  mem_listResumableJobs.1 h

/-- A chain retired as given up, counted to the end of its finding's work. -/
theorem gaveUp_retired {s s' : Store} {job : Row Job} (hjob : s.Lists job)
    (h : (s.retireJob job.id .failed (some "give-up".toList)).Ended s') : s.GaveUp s' := by
  refine ⟨(Store.narrows_retireJob (by decide)).trans h.narrows, job.id, ⟨_, hjob.1, hjob.2⟩,
    fun hagain => ?_, ?_⟩
  · exact ((Store.resumable_retired (by decide)).1 (h.narrows _ hagain)).1 rfl
  · rw [h.reason, Store.retireJob, Store.job?_modifyJob, if_pos rfl, hjob.1]
    rfl

section
variable {z : Nat → JobKind → Int} {s : Store} {kind : FindingJobKind} {fid : Nat}
  {list : List (Row Job)}

/-- How a finding tier's pick ends: nothing only after a chain was given up. -/
def Found.Outcome (z : Nat → JobKind → Int) (s : Store) (kind : FindingJobKind) (fid : Nat) :
    Except Text (Option Candidate) → Store → Prop
  | .ok none, s' => s.GaveUp s'
  | .ok (some (.finding k f)), s' => k = kind ∧ f = fid ∧ s'.InTier kind fid
  | .ok (some (.resume plan)), s' => plan.kind = .finding kind ∧ plan.findingId = some fid ∧
      s'.InTier kind fid ∧ s'.Continuable z plan
  | .ok (some (.repo _ _)), _ => False
  | .error _, _ => True

theorem Found.Outcome.after {s s' : Store} (hnarrows : s.Narrows s')
    {r : Except Text (Option Candidate)} {t : Store} (h : Found.Outcome z s' kind fid r t) :
    Found.Outcome z s kind fid r t := by
  cases r with
  | error e => trivial
  | ok picked =>
    cases picked with
    | none => exact Store.GaveUp.after hnarrows h
    | some candidate => cases candidate <;> exact h

theorem yields_resumeFinding (hin : s.InTier kind fid) (hlists : ∀ row ∈ list, s.Lists row)
    (hnodup : (list.map Row.id).Nodup) :
    Yields z (resumeFinding kind fid list) s (Found.Outcome z s kind fid) := by
  induction list generalizing s with
  | nil => exact yields_done ⟨rfl, rfl, hin⟩
  | cons job rest ih =>
    rw [List.map_cons, List.nodup_cons] at hnodup
    have hjob := hlists job (by simp)
    have hrest : ∀ row ∈ rest, s.Lists row := fun row hrow => hlists row (by simp [hrow])
    have hother : ∀ row ∈ rest, row.id ≠ job.id := fun row hrow heq =>
      hnodup.1 (heq ▸ List.mem_map_of_mem hrow)
    unfold resumeFinding
    split
    · rename_i hmatch
      obtain ⟨hf, hk⟩ : job.val.findingId = some fid ∧ job.val.kind = .finding kind := by
        simpa using hmatch
      refine yields_bind ((yields_resumePlan hjob).mono fun r s1 h1 => ?_)
      cases r with
      | error e => trivial
      | ok resumable =>
        cases resumable with
        | yes plan =>
          obtain ⟨rfl, hplan, hkind, hfinding⟩ := h1
          exact yields_done ⟨hkind.trans hk, hfinding.trans hf, hin, hplan⟩
        | no =>
          rcases h1 with rfl | rfl
          · exact ih hin hrest hnodup.2
          · refine (ih hin.retire (fun row hrow => (hrest row hrow).retire (hother row hrow))
              hnodup.2).mono fun r t h => ?_
            exact h.after (Store.narrows_retireJob (by decide))
        | gaveUp why =>
          obtain rfl := h1
          refine yields_bind ((yields_countGivenUpChain hin.retire).mono fun r s2 h2 => ?_)
          cases r with
          | error e => trivial
          | ok ended =>
            cases ended with
            | true => exact yields_done (gaveUp_retired hjob h2)
            | false =>
              refine (ih (h2.tier _ _ hin.retire) (fun row hrow => ?_) hnodup.2).mono
                fun r t h => ?_
              · exact h2.lists ((hrest row hrow).retire (hother row hrow))
              · exact h.after ((Store.narrows_retireJob (by decide)).trans h2.narrows)
    · exact ih hin hrest hnodup.2

theorem yields_findingPick (hin : s.InTier kind fid) :
    Yields z (findingPick kind fid) s (Found.Outcome z s kind fid) := by
  refine yields_bind (yields_sql (fun list s' happly => ?_) fun e => trivial)
  cases happly
  refine yields_resumeFinding hin (fun row hrow => lists_listResumableJobs hrow) ?_
  rw [Store.listResumableJobs, List.map_reverse, List.nodup_reverse]
  exact nodup_filter_rows _

def Background.Outcome (z : Nat → JobKind → Int) (s : Store) :
    Except Text (Option Candidate) → Store → Prop
  | .ok (some (.resume plan)), s' => s'.findings = s.findings ∧ s'.Continuable z plan
  | .ok (some _), _ => False
  | .ok none, s' => s'.findings = s.findings
  | .error _, _ => True

theorem yields_pickResume (hlists : ∀ row ∈ list, s.Lists row)
    (hnodup : (list.map Row.id).Nodup) :
    Yields z (pickResume list) s (Background.Outcome z s) := by
  induction list generalizing s with
  | nil => exact yields_done rfl
  | cons job rest ih =>
    rw [List.map_cons, List.nodup_cons] at hnodup
    have hrest : ∀ row ∈ rest, s.Lists row := fun row hrow => hlists row (by simp [hrow])
    have hother : ∀ row ∈ rest, row.id ≠ job.id := fun row hrow heq =>
      hnodup.1 (heq ▸ List.mem_map_of_mem hrow)
    have hretired : ∀ {state why}, Yields z (pickResume rest) (s.retireJob job.id state why)
        (Background.Outcome z s) := fun {_ _} =>
      ih (fun row hrow => (hrest row hrow).retire (hother row hrow)) hnodup.2
    refine yields_bind ((yields_resumePlan (hlists job (by simp))).mono fun r s1 h1 => ?_)
    cases r with
    | error e => trivial
    | ok resumable =>
      cases resumable with
      | yes plan =>
        obtain ⟨rfl, hplan, -, -⟩ := h1
        exact yields_done ⟨rfl, hplan⟩
      | no =>
        rcases h1 with rfl | rfl
        · exact ih hrest hnodup.2
        · exact hretired
      | gaveUp why =>
        obtain rfl := h1
        exact hretired

end

def Tiers.Read (tiers : Tiers) (s : Store) : Prop :=
  ∀ kind row, row ∈ tiers.of kind ↔ s.finding? row.id = some row.val ∧ kind.waits row.val = true

theorem empty_of_pick {tiers : Tiers} (h : tiers.pick = none) (kind : FindingJobKind) :
    tiers.of kind = [] := by
  simp only [Tiers.pick, Option.or_eq_none_iff, Option.map_eq_none_iff, List.head?_eq_none_iff,
    List.getLast?_eq_none_iff] at h
  obtain ⟨-, -, -, -, hattention, hharvest, hrecheck, hqueued⟩ := h
  cases kind with
  | recheck => exact hrecheck
  | engage => exact hattention
  | harvest => exact hharvest
  | fix => exact hqueued

section
variable {z : Nat → JobKind → Int} {s : Store}

theorem yields_flagged {list : List (Row Finding)} :
    Yields z (flagged list) s fun r s' => s' = s ∧ ∀ found, r = .ok found →
      ∀ row, row ∈ found.map Prod.snd ↔
        row ∈ list ∧ (s.prRow row.id).any (fun p => p.needsAttention.isSome) = true := by
  induction list with
  | nil =>
    refine yields_done ⟨rfl, fun found hfound row => ?_⟩
    cases hfound
    simp
  | cons first rest ih =>
    refine yields_bind (yields_sql (fun ps s' happly => ?_) fun e => ?_)
    · cases happly
      dsimp only [onOk]
      refine yields_bind (ih.mono fun r s' h => ?_)
      obtain ⟨rfl, hothers⟩ := h
      cases r with
      | error e => exact ⟨rfl, fun _ h => by cases h⟩
      | ok others =>
        have hmem := hothers others rfl
        dsimp only [onOk]
        split
        · rename_i ps hps
          split
          · rename_i hflag
            refine yields_done ⟨rfl, fun found hfound row => ?_⟩
            cases hfound
            rw [List.map_cons, List.mem_cons, hmem, List.mem_cons]
            constructor
            · rintro (rfl | ⟨hrow, hany⟩)
              · exact ⟨Or.inl rfl, by simpa [hps] using hflag⟩
              · exact ⟨Or.inr hrow, hany⟩
            · rintro ⟨rfl | hrow, hany⟩
              · exact Or.inl rfl
              · exact Or.inr ⟨hrow, hany⟩
          · rename_i hflag
            refine yields_done ⟨rfl, fun found hfound row => ?_⟩
            cases hfound
            rw [hmem, List.mem_cons]
            constructor
            · exact fun h => ⟨Or.inr h.1, h.2⟩
            · rintro ⟨rfl | hrow, hany⟩
              · rw [hps] at hany
                exact absurd (by simpa using hany) hflag
              · exact ⟨hrow, hany⟩
        · rename_i hps
          refine yields_done ⟨rfl, fun found hfound row => ?_⟩
          cases hfound
          rw [hmem, List.mem_cons]
          constructor
          · exact fun h => ⟨Or.inr h.1, h.2⟩
          · rintro ⟨rfl | hrow, hany⟩
            · rw [hps] at hany
              cases hany
            · exact ⟨hrow, hany⟩
    · exact ⟨rfl, fun _ h => by cases h⟩

theorem yields_listAttention :
    Yields z listAttention s fun r s' => s' = s ∧ ∀ found, r = .ok found → ∀ row,
      row ∈ found ↔ s.finding? row.id = some row.val ∧ row.val.flagged = true := by
  refine yields_bind (yields_sql (fun list s' happly => ?_) fun e => ?_)
  · cases happly
    dsimp only [onOk]
    refine yields_bind (yields_flagged.mono fun r s' h => ?_)
    obtain ⟨rfl, hfound⟩ := h
    cases r with
    | error e => exact ⟨rfl, fun _ h => by cases h⟩
    | ok found =>
      dsimp only [onOk]
      refine yields_done ⟨rfl, fun out hout row => ?_⟩
      cases hout
      have hsorted : row ∈ (found.insertionSort fun a b =>
          Store.syncedBefore a.1 b.1 = true).map Prod.snd ↔ row ∈ found.map Prod.snd := by
        simp only [List.mem_map, List.mem_insertionSort]
      rw [hsorted, hfound found rfl, mem_findingsWithStatus, Finding.flagged, Bool.and_eq_true,
        decide_eq_true_eq, and_assoc]
      refine and_congr_right fun hrow => and_congr_right fun _ => ?_
      rw [Store.prRow, hrow, Option.bind_some]
  · exact ⟨rfl, fun _ h => by cases h⟩

theorem yields_readTiers :
    Yields z readTiers s fun r s' => s' = s ∧ ∀ tiers, r = .ok tiers → tiers.Read s := by
  have herr : ∀ {e : Text}, s = s ∧ ∀ tiers, (Except.error e : Except Text Tiers) = .ok tiers →
      tiers.Read s := ⟨rfl, fun _ h => by cases h⟩
  refine yields_bind (yields_sql (fun rechecking s' happly => ?_) fun e => herr)
  cases happly
  dsimp only [onOk]
  refine yields_bind (yields_listAttention.mono fun r s' h => ?_)
  obtain ⟨rfl, hattention⟩ := h
  cases r with
  | error e => exact herr
  | ok attention =>
    dsimp only [onOk]
    refine yields_bind (yields_sql (fun harvest s' happly => ?_) fun e => herr)
    cases happly
    dsimp only [onOk]
    refine yields_bind (yields_sql (fun queued s' happly => ?_) fun e => herr)
    cases happly
    dsimp only [onOk]
    refine yields_done ⟨rfl, fun tiers htiers kind row => ?_⟩
    cases htiers
    cases kind with
    | recheck => simp [Tiers.of, mem_findingsWithStatus, FindingJobKind.waits]
    | engage => exact hattention attention rfl row
    | harvest =>
      simp [Tiers.of, Store.listPendingHarvest, List.mem_insertionSort, FindingJobKind.waits,
        Store.finding?]
    | fix => simp [Tiers.of, mem_findingsWithStatus, FindingJobKind.waits]

end

/-- The candidate is still in its tier. A resume is of the picked finding, or no finding waits. -/
def Store.Returns (s : Store) (z : Nat → JobKind → Int) : Candidate → Prop
  | .repo _ _ => ∀ kind fid, ¬ s.InTier kind fid
  | .finding kind fid => s.InTier kind fid
  | .resume plan => s.Continuable z plan ∧ ((∀ kind fid, ¬ s.InTier kind fid) ∨
      ∃ kind fid, plan.kind = .finding kind ∧ plan.findingId = some fid ∧ s.InTier kind fid)

def Selected.Outcome (z : Nat → JobKind → Int) (s : Store) :
    Except Text Selection → Store → Prop
  | .ok .again, s' => s.GaveUp s'
  | .ok (.picked candidate), s' => s'.Returns z candidate
  | .ok .idle, _ | .error _, _ => True

theorem not_inTier_of_findings {s s' : Store} (h : s'.findings = s.findings)
    (hnone : ∀ kind fid, ¬ s.InTier kind fid) (kind : FindingJobKind) (fid : Nat) :
    ¬ s'.InTier kind fid := by
  rintro ⟨x, hx, hin⟩
  rw [Store.finding?, h] at hx
  exact hnone kind fid ⟨x, hx, hin⟩

section
variable {z : Nat → JobKind → Int} {s : Store}

theorem yields_selectBackground (hnone : ∀ kind fid, ¬ s.InTier kind fid) :
    Yields z selectBackground s (Selected.Outcome z s) := by
  refine yields_bind (yields_sql (fun list s' happly => ?_) fun e => trivial)
  cases happly
  refine yields_bind ((yields_pickResume (fun row hrow => lists_listResumableJobs hrow)
    nodup_listResumableJobs).mono fun r s1 h1 => ?_)
  cases r with
  | error e => trivial
  | ok picked =>
    cases picked with
    | some candidate =>
      cases candidate with
      | resume plan =>
        exact yields_done ⟨h1.2, Or.inl (not_inTier_of_findings h1.1 hnone)⟩
      | _ => exact h1.elim
    | none =>
      have hstill := not_inTier_of_findings h1 hnone
      refine yields_bind (yields_tryAsk fun pick => ?_)
      cases pick with
      | error e => trivial
      | ok pick =>
        cases pick with
        | none => exact yields_done trivial
        | some pick => exact yields_done hstill

theorem yields_select : Yields z select s (Selected.Outcome z s) := by
  refine yields_bind (yields_readTiers.mono fun r s1 h1 => ?_)
  obtain ⟨rfl, hread⟩ := h1
  cases r with
  | error e => trivial
  | ok tiers =>
    have hread := hread tiers rfl
    dsimp only [onOk]
    split
    · rename_i kind fid hpick
      obtain ⟨row, hrow, rfl⟩ := mem_of_pick hpick
      obtain ⟨hrow, hin⟩ := (hread kind row).1 hrow
      refine yields_bind ((yields_findingPick ⟨row.val, hrow, hin⟩).mono fun r s2 h2 => ?_)
      cases r with
      | error e => trivial
      | ok picked =>
        cases picked with
        | none => exact yields_done h2
        | some candidate =>
          cases candidate with
          | repo kind repoId => exact h2.elim
          | finding k f =>
            obtain ⟨rfl, rfl, hstill⟩ := h2
            exact yields_done hstill
          | resume plan =>
            obtain ⟨hkind, hfid, hstill, hplan⟩ := h2
            exact yields_done ⟨hplan, Or.inr ⟨kind, row.id, hkind, hfid, hstill⟩⟩
    · rename_i hpick
      refine yields_selectBackground fun kind fid => ?_
      rintro ⟨x, hx, hin⟩
      have hmem := (hread kind ⟨fid, x⟩).2 ⟨hx, hin⟩
      rw [empty_of_pick hpick kind] at hmem
      cases hmem

end

theorem Store.GaveUp.length_lt {s s' : Store} (h : s.GaveUp s') :
    s'.listResumableJobs.length < s.listResumableJobs.length := by
  have hmem : ∀ {t : Store} {id}, id ∈ (t.listResumableJobs.map Row.id).toFinset ↔
      t.Resumable id := by
    intro t id
    simp only [List.mem_toFinset, List.mem_map]
    constructor
    · rintro ⟨row, hrow, rfl⟩
      exact ⟨row.val, lists_listResumableJobs hrow⟩
    · rintro ⟨j, hj⟩
      exact ⟨⟨id, j⟩, mem_listResumableJobs.2 hj, rfl⟩
  have hcard : ∀ t : Store, (t.listResumableJobs.map Row.id).toFinset.card =
      t.listResumableJobs.length := fun t => by
    rw [List.toFinset_card_of_nodup nodup_listResumableJobs, List.length_map]
  obtain ⟨hnarrows, id, hid, hgone, -⟩ := h
  rw [← hcard s', ← hcard s]
  refine Finset.card_lt_card (Finset.ssubset_iff_subset_ne.2 ⟨fun k hk => ?_, fun heq => ?_⟩)
  · exact hmem.2 (hnarrows k (hmem.1 hk))
  · exact hgone (hmem.1 (heq ▸ hmem.2 hid))

def Reselects (w' w : World) : Prop := ∃ z, Runs (EstimatedStep z) select w (.ok .again) w'

theorem acc_reselects (w : World) : Acc Reselects w := by
  induction hn : w.store.listResumableJobs.length using Nat.strong_induction_on generalizing w with
  | _ n ih =>
    subst hn
    refine ⟨w, fun w' => ?_⟩
    rintro ⟨z, hrun⟩
    exact ih _ (Store.GaveUp.length_lt (yields_select w rfl _ _ hrun)) w' rfl

/-- The findings an operator has taken out of `blocked` since they were last held. -/
def Released.heard (w w' : World) (released : Set Nat) : Set Nat :=
  {f | w'.store.statusOf (some f) ≠ some .blocked ∧
    (f ∈ released ∨ w.store.statusOf (some f) = some .blocked)}

def Released.seen {β : Type} (_ : Call β) (_ : World) (_ : β) (w' : World) (released : Set Nat) :
    Set Nat :=
  {f | f ∈ released ∧ w'.store.statusOf (some f) ≠ some .blocked}

def releasing : Machine Call Text (World × Set Nat) :=
  daemon.watch ∅ Released.seen Released.heard

/-- A finding with a job that carries a blocker is blocked, or an operator has released it. -/
def Store.Released (s : Store) (released : Set Nat) : Prop :=
  ∀ id j f, s.job? id = some j → j.findingId = some f → j.blocker.isSome = true →
    s.statusOf (some f) = some .blocked ∨ f ∈ released

section
variable {β : Type} {c : StoreCall β} {s s' : Store} {b : β} {a : Memory} {f : Nat}

/-- The daemon takes no finding out of `blocked`. -/
theorem blocked_of_moves {x : Finding} {target : FindingStatus} (hallow : c.allowed a)
    (hknown : ∀ y ∈ a, y.holds s) (hx : s.finding? f = some x) (hblocked : x.status = .blocked)
    (hmoves : c.moves f .blocked target) : target = .blocked := by
  have hnot : ∀ {status}, status ≠ .blocked → Fact.held f status ∉ a := fun hne hheld =>
    hne ((status_of_held hknown hx hheld).symm.trans hblocked)
  cases c with
  | setFindingStatus g status =>
    obtain ⟨rfl, rfl⟩ := hmoves
    cases target with
    | new | merged => exact absurd hallow (hnot (by decide))
    | queued =>
      rcases hallow with h | h
      · exact absurd h (hnot (by decide))
      · exact absurd h.1 (hnot (by decide))
    | _ => exact hallow.elim
  | setAnchoredVerdict =>
    obtain ⟨rfl, -⟩ := hmoves
    rcases hallow.2 with h | h | h
    · exact absurd h (hnot (by decide))
    · exact absurd h (hnot (by decide))
    · exact absurd h.2.1 (hnot (by decide))
  | claimInProgress g source target =>
    obtain ⟨-, rfl, -⟩ := hmoves
    rcases hallow with h | h <;> cases h.1
  | setFindingPrOpen =>
    obtain ⟨rfl, -⟩ := hmoves
    exact absurd hallow (hnot (by decide))
  | blockFixJob => exact hmoves.2
  | recordClosedHarvest | refreshDepUpdate | reopenSuppressed => cases hmoves.2.1
  | supersedeUnproposedDepUpdates => cases hmoves.1
  | handOverQueuedDepUpdates => rcases hmoves.1 with h | h <;> cases h
  | _ => exact hmoves.elim

theorem blocked_kept (h : c.apply s = some (b, s')) (hallow : c.allowed a)
    (hknown : ∀ y ∈ a, y.holds s) (hblocked : s.statusOf (some f) = some .blocked) :
    s'.statusOf (some f) = some .blocked := by
  obtain ⟨x, hx, hstatus⟩ := Option.map_eq_some_iff.1 hblocked
  obtain ⟨x', hx', hchange⟩ := StoreCall.edits h f x hx
  refine Option.map_eq_some_iff.2 ⟨x', hx', ?_⟩
  rcases hchange.status with hsame | hmoves
  · exact hsame.trans hstatus
  · rw [hstatus] at hmoves
    exact blocked_of_moves hallow hknown hx hstatus hmoves

/-- Only a hold gives a job a blocker of its own, and it blocks the job's finding. -/
theorem blocked_of_blocks {id : Nat} {j : Job} (h : c.apply s = some (b, s'))
    (hblocks : c.blocks id) (hj : s.job? id = some j) (hf : j.findingId = some f) :
    s'.statusOf (some f) = some .blocked := by
  cases c with
  | blockFixJob g k reason =>
    obtain rfl := hblocks
    simp only [StoreCall.apply, Option.map_eq_some_iff] at h
    obtain ⟨t, ht, hts⟩ := h
    cases hts
    obtain ⟨j', x, hj', hx, hg, -, rfl⟩ := Store.blockFixJob_spec ht
    cases hj.symm.trans hj'
    cases hf.symm.trans hg
    simp [Store.statusOf, hx]
  | _ => exact hblocks.elim

/-- A job a statement gives a blocker had it, has just been held, or takes over its
predecessor's. -/
theorem blocker_origin {id : Nat} {j' : Job} (h : c.apply s = some (b, s')) (hallow : c.allowed a)
    (hcontinued : s'.Continued) (hj' : s'.job? id = some j') (hf : j'.findingId = some f)
    (hblocker : j'.blocker.isSome = true) : s'.statusOf (some f) = some .blocked ∨
      ∃ k j, s.job? k = some j ∧ j.findingId = some f ∧ j.blocker.isSome = true := by
  have hfair := fair_of_allowed hallow
  rcases StoreCall.job_cases h hfair hj' with ⟨j, hj, hchange⟩ | hinsert
  · have hof := hchange.findingId.symm.trans hf
    rcases hchange.blocker with hsame | ⟨hblocks, -⟩
    · exact Or.inr ⟨id, j, hj, hof, hsame ▸ hblocker⟩
    · exact Or.inl (blocked_of_blocks h hblocks hj hof)
  · cases c with
    | createJob kind repoId findingId state resumedFrom =>
      obtain ⟨-, -, rfl⟩ := hinsert
      cases hfrom : resumedFrom with
      | none => simp [Store.newJob, hfrom] at hblocker
      | some p =>
        simp only [Store.newJob, hfrom, Option.bind_some] at hblocker
        cases hp : s.job? p with
        | none => simp [hp] at hblocker
        | some k =>
          simp only [hp, Option.bind_some] at hblocker
          obtain ⟨k', hk', hcontinues⟩ := hcontinued id _ p hj' hfrom
          obtain ⟨k'', hk'', hchange⟩ := StoreCall.jobEdits h hfair hp
          cases hk'.symm.trans hk''
          refine Or.inr ⟨p, k, hp, ?_, hblocker⟩
          exact hchange.findingId.symm.trans (hcontinues.findingId.symm.trans hf)
    | _ => exact hinsert.elim

end

theorem released_invariant : Machine.InvariantUnder releasing (follower.watch _ _ _)
    (fun a s => Known a s.1 ∧ Chains (fun kind => kind ≠ .finding .harvest) a s.1)
    fun _ s => s.1.store.Released s.2 where
  init s hs := by
    obtain ⟨hinit, -⟩ := hs
    intro id j f hj
    rw [show s.1 = _ from hinit] at hj
    simp [Store.job?] at hj
  call a c s b s' hallow hJ hreleased h hnext := by
    obtain ⟨w, released⟩ := s
    obtain ⟨w', released'⟩ := s'
    obtain ⟨h, hnotes⟩ := h
    obtain rfl : released' = Released.seen c w b w' released := hnotes
    change CallStep c w b w' at h
    have hnote : ∀ {f}, f ∈ released → w'.store.statusOf (some f) = some .blocked ∨
        f ∈ Released.seen c w b w' released := fun {f} hf => by
      by_cases hblocked : w'.store.statusOf (some f) = some .blocked
      · exact Or.inl hblocked
      · exact Or.inr ⟨hf, hblocked⟩
    intro id j f hj hf hblocker
    have hsame : w'.store = w.store →
        w'.store.statusOf (some f) = some .blocked ∨ f ∈ Released.seen c w b w' released := by
      intro hsame
      rw [show (w', _).1.store = w.store from hsame] at hj
      rcases hreleased id j f hj hf hblocker with hblocked | hin
      · exact Or.inl (hsame ▸ hblocked)
      · exact hnote hin
    cases c with
    | ask q => exact hsame (by rw [show w' = w from h.leaves])
    | tree c => exact hsame h.leaves
    | store c =>
      rcases h.leaves with ⟨b', s', rfl, happly, rfl⟩ | ⟨-, rfl⟩
      · rcases blocker_origin happly hallow hnext.2.continued hj hf hblocker with
          hblocked | ⟨k, i, hi, hif, hiblocker⟩
        · exact Or.inl hblocked
        · rcases hreleased k i f hi hif hiblocker with hblocked | hin
          · exact Or.inl (blocked_kept happly hallow hJ.1.facts hblocked)
          · exact hnote hin
      · exact hsame rfl
  finish _ _ _ _ _ hreleased := hreleased
  abort _ _ _ _ hreleased := hreleased
  crash _ _ _ _ _ _ hreleased := hreleased
  env a s s' _ hreleased henv := by
    obtain ⟨w, released⟩ := s
    obtain ⟨w', released'⟩ := s'
    obtain ⟨henv, hnotes⟩ := henv
    obtain rfl : released' = Released.heard w w' released := hnotes
    change EnvStep w w' at henv
    have hjobs : w'.store.jobs = w.store.jobs := by
      cases henv with
      | treeLost => rfl
      | request haccept => exact haccept.jobs
    intro id j f hj hf hblocker
    have hj : w.store.job? id = some j := (Store.job?_of_jobs hjobs id).symm.trans hj
    by_cases hblocked : w'.store.statusOf (some f) = some .blocked
    · exact Or.inl hblocked
    · exact Or.inr ⟨hblocked, (hreleased id j f hj hf hblocker).symm⟩

/-- What a selection leaves of a reachable state is still one with every blocker accounted for. -/
theorem released_after {x : Config releasing} (hx : releasing.Reachable x)
    {r : Except Text Selection} {w' : World} (hrun : Runs CallStep select x.state.1 r w') :
    w'.store.Released x.state.2 := by
  obtain ⟨a, -, ⟨hknown, hchains⟩, hreleased⟩ :=
    (((known_invariant.and chains_invariant).watch _ _ _).and released_invariant).reachable hx
  have hrun : Runs daemon.step select x.state.1 r w' := hrun
  obtain ⟨released', hrun', hfewer⟩ := hrun.watch (R := fun n m => m ⊆ n) ∅ Released.seen
    Released.heard x.state.2 (fun _ => subset_rfl) (fun _ _ _ h h' => h'.trans h)
    fun _ _ _ _ _ _ h => h.1
  have hfollows := follows_select (a := ∅) fun _ hf => hf.elim
  obtain ⟨-, -, -, hafter⟩ := Machine.Invariant.runs
    (((known_invariant.and chains_invariant).watch _ _ _).and released_invariant) hrun' hfollows
    ⟨⟨⟨fun _ hy => hy.elim, hknown.descends⟩, hchains.sited, hchains.unbranched,
      hchains.continued, hchains.alone, fun _ hy => hy.elim⟩, hreleased⟩
  intro id j f hj hf hblocker
  exact (hafter id j f hj hf hblocker).imp_right fun h => hfewer h

theorem queued_of_resumable {s : Store} {id : Nat} {j : Job} (h : s.resumable id j = true)
    (hkind : j.kind = .finding .fix) :
    ∃ f, j.findingId = some f ∧ s.statusOf (some f) = some .queued := by
  simp only [Store.resumable, Bool.and_eq_true, hkind] at h
  obtain ⟨status, hstatus, hat⟩ := (Option.any_eq_true _ _).1 h.2
  cases hf : j.findingId with
  | none =>
    rw [hf] at hstatus
    cases hstatus
  | some f =>
    rw [hf] at hstatus
    refine ⟨f, rfl, ?_⟩
    cases status <;> first | exact hstatus | cases hat

/-- From every reachable state selections end, each one over has retired a suspension for good,
and what is picked is still in its tier; above its give-up ceiling only a fix an operator has
released since it was held. -/
theorem select_ends_sound {x : Config releasing} (hx : releasing.Reachable x)
    {z : Nat → JobKind → Int} {r : Except Text Selection} {w' : World}
    (hrun : Runs (EstimatedStep z) select x.state.1 r w') :
    Acc Reselects x.state.1 ∧ (r = .ok .again → x.state.1.store.GaveUp w'.store) ∧
      ∀ candidate, r = .ok (.picked candidate) → w'.store.Returns z candidate ∧
        ∀ plan, candidate = .resume plan →
          (w'.store.resumeChainStats plan.predecessorId).overCeiling (z plan.repoId plan.kind) →
            plan.kind = .finding .fix ∧ ∃ f ∈ x.state.2, plan.findingId = some f := by
  have hends := yields_select (z := z) x.state.1 rfl r w' hrun
  refine ⟨acc_reselects _, fun h => ?_, fun candidate h => ?_⟩
  · subst h
    exact hends
  · subst h
    refine ⟨hends, fun plan hplan hover => ?_⟩
    subst hplan
    obtain ⟨⟨j, hj, hresumable, hkind, -, hfinding, -⟩, hceiling⟩ := hends.1
    obtain ⟨hfix, hblocker⟩ := hceiling hover
    obtain ⟨f, hf, hqueued⟩ := queued_of_resumable hresumable (hkind.trans hfix)
    have hreleased := released_after hx (hrun.mono fun _ _ _ _ h => h.1)
    refine ⟨hfix, f, (hreleased _ j f hj hf ?_).resolve_left ?_, hfinding.symm.trans hf⟩
    · rw [Store.jobBlocker, hj] at hblocker
      exact hblocker
    · rw [hqueued]
      decide

def resumePick? : Act Selection → Option ResumePlan
  | .done (.picked (.resume plan)) => some plan
  | _ => none

theorem eq_of_resumePick? {p : Act Selection} {plan : ResumePlan}
    (h : resumePick? p = some plan) : p = .done (.picked (.resume plan)) := by
  unfold resumePick? at h
  split at h
  · cases h
    rfl
  · cases h

/-- The suspended fix of a queued finding is picked to be resumed. -/
theorem pausedFix_picked : ∃ released plan w',
    releasing.Reachable ⟨pausedFix.rest, pausedFix.state, released⟩ ∧
      Runs (EstimatedStep fun _ _ => 0) select pausedFix.state (.ok (.picked (.resume plan))) w' ∧
        w'.store.Returns (fun _ _ => 0) (.resume plan) := by
  have hreturns : ∀ x : Config daemon, daemon.Reachable x → ∀ plan w',
      Runs (EstimatedStep fun _ _ => 0) select x.state (.ok (.picked (.resume plan))) w' →
        ∃ released, releasing.Reachable ⟨x.rest, x.state, released⟩ ∧
          w'.store.Returns (fun _ _ => 0) (.resume plan) := by
    intro x hx plan w' hrun
    obtain ⟨released, hx⟩ := hx.watch ∅ Released.seen Released.heard
    exact ⟨released, hx, ((select_ends_sound hx hrun).2.2 _ rfl).1⟩
  have hpicked : (resumePick? (Machine.replay routine.reply select pausedFix.state).1).isSome =
      true := by decide +kernel
  obtain ⟨plan, hplan⟩ := Option.isSome_iff_exists.1 hpicked
  have hrun : Runs (EstimatedStep fun _ _ => 0) select pausedFix.state
      (.ok (.picked (.resume plan)))
      (Machine.replay routine.reply select pausedFix.state).2 := by
    refine runs_replay ?_ (eq_of_resumePick? hplan)
    intro β c w b w' hanswer
    refine ⟨Outside.faithful_reply routine c w b w' hanswer, ?_⟩
    cases c with
    | ask q =>
      cases q with
      | anticipatedTokens =>
        have hb := congrArg Prod.fst (Option.some.inj hanswer)
        exact hb.symm
      | _ => trivial
    | _ => trivial
  obtain ⟨released, hx, hends⟩ := hreturns _ reachable_pausedFix _ _ hrun
  exact ⟨released, plan, _, hx, hrun, hends⟩

end Hunter
