import Hunter.Conformance.Select
set_option autoImplicit false

namespace Hunter
open Effect

variable {a : Memory}

/-- What an orphan is suspended with: what its chain's ledger shows, less what the attempts
before it spent. -/
theorem follows_orphanWork {job : Nat} (hrunning : Fact.running job ∈ a) :
    Follows protocol a (orphanWork job) fun r a' =>
      Grows a a' ∧ ∀ work, r = .ok (some work) → 0 < work.2 ∧ ∃ first total before,
        Fact.origin job first ∈ a' ∧ Fact.ledger first work.1 total ∈ a' ∧
          Fact.spent job before ∈ a' ∧ work.2 = total - before := by
  refine follows_bind.2 (follows_read rfl (fun first a1 _ h1 horigin => ?_)
    fun _ _ h => ⟨h, nofun⟩)
  refine follows_bind.2 (follows_tree.2 ⟨trivial, fun usage => ?_⟩)
  have h2 : Grows a1 (a1.next (.tree (.ledgerUsage first)) usage) :=
    keeps_next (fun _ hx => hx) fun _ => not_learns_merging_tree
  have h12 := h1.trans h2
  cases usage with
  | none => exact ⟨h12, nofun⟩
  | some usage =>
    obtain ⟨file, tokens⟩ := usage
    refine follows_bind.2 (follows_read rfl (fun before a3 _ h3 hspent => ?_)
      fun _ _ h => ⟨h12.trans h, nofun⟩)
    have h13 := h12.trans h3
    dsimp only [onOk]
    split
    · exact ⟨h13, nofun⟩
    · rename_i hown
      refine (peaceful_ask rfl).bind (fun inUse a4 h4 => ?_) fun _ _ h => ⟨h13.trans h, nofun⟩
      cases inUse with
      | true => exact ⟨h13.trans h4, nofun⟩
      | false =>
        refine ⟨h13.trans h4, fun work hwork => ?_⟩
        cases hwork
        refine ⟨by simpa using hown, first, tokens, before, ?_, ?_, ?_, rfl⟩
        · exact ((h2.trans h3).trans h4).mem (horigin _ (Or.inr ⟨Or.inl hrunning, rfl⟩))
        · exact (h3.trans h4).mem (Or.inr ⟨file, tokens, rfl, rfl⟩)
        · exact h4.mem (hspent _ rfl)

theorem conforms_suspendOrphans {list : List (Row Job)} (hcalm : Calm a)
    (hnodup : (list.map Row.id).Nodup) (hrunning : ∀ job ∈ list, Fact.running job.id ∈ a) :
    Conforms a (suspendOrphans list) := by
  induction list generalizing a with
  | nil => exact hcalm
  | cons job rest ih =>
    rw [List.map_cons, List.nodup_cons] at hnodup
    have hrest : ∀ {a'}, Keeps (fun x => x = .running job.id ∨ x.onSpend) a a' →
        Conforms a' (suspendOrphans rest) := by
      intro a' h
      refine ih (h.calm hcalm) hnodup.2 fun other hother => ?_
      refine h.known _ (hrunning other (by simp [hother])) ?_
      have hne : other.id ≠ job.id := fun h => hnodup.1 (h ▸ List.mem_map_of_mem hother)
      simp [Fact.onSpend, hne]
    have hfirst := hrunning job (by simp)
    refine follows_bind.2 ((follows_orphanWork hfirst).mono fun r a1 h1 => ?_)
    obtain ⟨h1, hwork⟩ := h1
    cases r with
    | error e => exact h1.calm hcalm
    | ok work =>
      cases work with
      | none => exact hrest h1.grows
      | some work =>
        have hrun := h1.mem hfirst
        refine follows_bind.2 (follows_sql.2 ⟨⟨hrun, hwork work rfl⟩, fun b _ => ?_, fun e => ?_⟩)
        · exact hrest (h1.grows.trans (keeps_next (fun _ hx => hx) fun _ =>
            not_learns_merging rfl))
        · exact (h1.trans (grows_error rfl)).calm hcalm

theorem conforms_requeueStuck {list : List (Row Finding)} (hcalm : Calm a)
    (hnodup : (list.map Row.id).Nodup) (hheld : ∀ f ∈ list, Fact.held f.id .fixing ∈ a) :
    Conforms a (requeueStuck list) := by
  induction list generalizing a with
  | nil => exact hcalm
  | cons f rest ih =>
    rw [List.map_cons, List.nodup_cons] at hnodup
    refine follows_bind.2 (follows_sql.2 ⟨Or.inl (hheld f (by simp)), fun b _ => ?_, fun e => ?_⟩)
    · have h : Keeps (fun x => x.onStatus f.id) a
          (a.next (.store (.setFindingStatus f.id .queued)) (.ok b)) :=
        keeps_next (fun _ hx => hx) fun _ => not_learns_merging rfl
      refine ih (h.calm hcalm) hnodup.2 fun other hother => ?_
      refine h.known _ (hheld other (by simp [hother])) ?_
      have hne : other.id ≠ f.id := fun h => hnodup.1 (h ▸ List.mem_map_of_mem hother)
      simp [Fact.onStatus, hne]
    · exact (grows_error rfl).calm hcalm

theorem follows_orphanJobs {list : List (Row Job)} (hcalm : Calm a)
    (hnodup : (list.map Row.id).Nodup) (hrunning : ∀ job ∈ list, Fact.running job.id ∈ a)
    (halone : Fact.runningIn (list.map Row.id) ∈ a) :
    Follows protocol a (orphanJobs list) fun r a' =>
      Calm a' ∧ (r = .ok () → Fact.runningIn [] ∈ a') := by
  induction list generalizing a with
  | nil => exact ⟨hcalm, fun _ => halone⟩
  | cons job rest ih =>
    rw [List.map_cons, List.nodup_cons] at hnodup
    refine follows_bind.2 (follows_sql.2 ⟨hrunning job (by simp), fun b _ => ?_, fun e => ?_⟩)
    · have h : Keeps (fun x => x = .running job.id) a
          (a.next (.store (.orphanJob job.id)) (.ok b)) :=
        keeps_next (fun _ hx => hx) fun _ => not_learns_merging rfl
      refine ih (h.calm hcalm) hnodup.2 (fun other hother => ?_) (Or.inr ⟨_, halone, ?_⟩)
      · refine h.known _ (hrunning other (by simp [hother])) ?_
        have hne : other.id ≠ job.id := fun h => hnodup.1 (h ▸ List.mem_map_of_mem hother)
        simp [hne]
      · have hrest : (rest.map Row.id).filter (fun id => id ≠ job.id) = rest.map Row.id := by
          refine List.filter_eq_self.2 fun id hid => ?_
          simpa using fun h : id = job.id => hnodup.1 (h ▸ hid)
        rw [List.map_cons, List.filter_cons_of_neg (by simp), hrest]
    · exact ⟨(grows_error rfl).calm hcalm, fun h => by cases h⟩

theorem nodup_running {list : List (Row Job)}
    (h : StoreCall.listRunningJobs.canAnswer (.ok list)) : (list.map Row.id).Nodup := by
  obtain ⟨s, s', happly⟩ := h
  cases happly
  exact nodup_filter_rows _

theorem follows_reconcileOrphanedJobs (hcalm : Calm a) :
    Follows protocol a reconcileOrphanedJobs fun r a' =>
      Calm a' ∧ (r = .ok () → Fact.runningIn [] ∈ a') := by
  refine follows_bind.2 (follows_read rfl (fun stuck a1 hstuck h1 hlearn => ?_)
    fun _ _ h => ⟨h.calm hcalm, fun h => by cases h⟩)
  have hnodup : (stuck.map Row.id).Nodup := by
    obtain ⟨s, s', happly⟩ := hstuck
    cases happly
    rw [Store.findingsWithStatus, List.map_reverse, List.nodup_reverse]
    exact nodup_filter_rows _
  have hheld : ∀ f ∈ stuck, Fact.held f.id .fixing ∈ a1 :=
    fun f hf => hlearn _ ⟨f, hf, Or.inl ⟨rfl, rfl⟩⟩
  refine follows_bind.2 ((conforms_requeueStuck (h1.calm hcalm) hnodup hheld).mono
    fun r a2 hc2 => ?_)
  cases r with
  | error e => exact ⟨hc2, fun h => by cases h⟩
  | ok _ =>
    refine follows_bind.2 (follows_read rfl (fun running a3 hrunning h3 hlearn => ?_)
      fun _ _ h => ⟨h.calm hc2, fun h => by cases h⟩)
    exact follows_orphanJobs (h3.calm hc2) (nodup_running hrunning)
      (fun job hjob => hlearn _ (Or.inl ⟨job, hjob, rfl⟩)) (hlearn _ (Or.inr rfl))

theorem follows_reconcileAndLog (hcalm : Calm a) :
    Follows protocol a reconcileAndLog fun r a' =>
      Calm a' ∧ (r = .ok () → Fact.runningIn [] ∈ a') := by
  refine follows_bind.2 (follows_read rfl (fun running a1 hrunning h1 hlearn => ?_)
    fun _ _ h => ⟨h.calm hcalm, fun h => by cases h⟩)
  have hrun : ∀ job ∈ running, Fact.running job.id ∈ a1 :=
    fun job hjob => hlearn _ (Or.inl ⟨job, hjob, rfl⟩)
  refine follows_bind.2 ((conforms_suspendOrphans (h1.calm hcalm) (nodup_running hrunning)
    hrun).mono fun r a2 hc2 => ?_)
  cases r with
  | error e => exact ⟨hc2, fun h => by cases h⟩
  | ok _ => exact follows_reconcileOrphanedJobs hc2

theorem peaceful_sweepChains (origins : List Nat) : Peaceful (sweepChains origins) := by
  induction origins with
  | nil => trivial
  | cons origin rest ih => exact quiet_bind (peaceful_releaseIfIdle _) fun _ => ih

theorem tame_sweepWorkspaces : Tame sweepWorkspaces := by
  refine tame_bind (tame_attempt ?_) fun _ => tame_done _
  exact tame_bind (tame_sql rfl) fun _ =>
    tame_bind (peaceful_ask rfl).tame fun _ => (peaceful_sweepChains _).tame

theorem peaceful_reapRepo (id : Nat) : Peaceful (reapRepo id) :=
  quiet_bind (peaceful_tryAsk rfl) fun _ => quiet_bind (peaceful_tryAsk rfl) fun _ =>
    peaceful_sql rfl

theorem peaceful_reapEach (ids : List Nat) : Peaceful (reapEach ids) := by
  induction ids with
  | nil => trivial
  | cons id rest ih => exact quiet_bind (quiet_attempt (peaceful_reapRepo id)) fun _ => ih

theorem peaceful_reapDeletedRepos : Peaceful reapDeletedRepos := by
  refine quiet_bind (peaceful_sqlResult rfl) fun r => ?_
  cases r with
  | ok ids => exact peaceful_reapEach ids
  | error e => trivial

theorem follows_reapAndSweep {β : Type} {p : Act β} {Q : Except Text β → Memory → Prop}
    (hc : Calm a) (herror : ∀ e a', Calm a' → Q (.error e) a')
    (hp : ∀ a', Calm a' → Follows protocol a' p Q) :
    Follows protocol a (reapDeletedRepos >>= fun _ => sweepWorkspaces >>= fun _ => p) Q := by
  refine follows_bind.2 (peaceful_reapDeletedRepos.tame.follows.mono fun r a1 h1 => ?_)
  have hc1 := h1.calm hc
  cases r with
  | error e => exact herror e a1 hc1
  | ok _ =>
    refine follows_bind.2 (tame_sweepWorkspaces.follows.mono fun r a2 h2 => ?_)
    have hc2 := h2.calm hc1
    cases r with
    | error e => exact herror e a2 hc2
    | ok _ => exact hp a2 hc2

/-- What a finding job's candidate is known for. -/
inductive Dispatched (a : Memory) (kind : FindingJobKind) (fid : Nat) :
    Option ResumePlan → Prop
  | fresh : kind.due fid ∈ a → Dispatched a kind fid none
  | resume {plan : ResumePlan} : plan.kind = .finding kind → plan.findingId = some fid →
      (∀ x ∈ (Candidate.resume plan).known, x ∈ a) → Dispatched a kind fid (some plan)

theorem mayResume_known {plan : ResumePlan} (h : ∀ x ∈ (Candidate.resume plan).known, x ∈ a) :
    a.mayResume plan.predecessorId plan.sessionFile :=
  Or.inl (h _ (Or.inl (Or.inr (Or.inr (Or.inr (Or.inl ⟨_, rfl, rfl⟩))))))

namespace Dispatched
variable {kind : FindingJobKind} {fid : Nat} {resume : Option ResumePlan}

theorem grows {b : Memory} (h : Dispatched a kind fid resume) (hab : Grows a b) :
    Dispatched b kind fid resume := by
  cases h with
  | fresh hdue => exact .fresh (hab.mem hdue)
  | resume hkind hfid hknown => exact .resume hkind hfid fun x hx => hab.mem (hknown x hx)

theorem session (h : Dispatched a kind fid resume) :
    ∀ plan, resume = some plan → a.mayResume plan.predecessorId plan.sessionFile := by
  intro plan hplan
  cases h with
  | fresh => cases hplan
  | resume _ _ hknown =>
    cases hplan
    exact mayResume_known hknown

theorem resumes {repoId : Nat} (h : Dispatched a kind fid resume)
    (hdispatch : Fact.dispatching ∈ a) (hidle : Fact.runningIn [] ∈ a) :
    Resumes a (.finding kind) repoId (some fid) resume := by
  refine ⟨hdispatch, hidle, fun plan hplan => ?_, fun plan hplan => h.session plan hplan⟩
  cases h with
  | fresh => cases hplan
  | resume hkind hfid hknown =>
    cases hplan
    refine ⟨some fid, hknown _ (Or.inl (Or.inl ?_)), hknown _ (Or.inr (Or.inl rfl)), rfl⟩
    rw [hkind, hfid]

theorem due (h : Dispatched a kind fid resume) (hkind : kind ≠ .fix) : kind.due fid ∈ a := by
  cases h with
  | fresh hdue => exact hdue
  | resume hk hfid hknown =>
    refine hknown _ (Or.inl (Or.inr (Or.inr (Or.inr (Or.inr ⟨kind, fid, hk, hfid, ?_⟩)))))
    rw [if_neg hkind]

theorem resumesFix {repoId : Nat} (h : Dispatched a .fix fid resume)
    (hdispatch : Fact.dispatching ∈ a) (hidle : Fact.runningIn [] ∈ a) :
    ResumesFix a fid repoId resume := by
  refine ⟨h.resumes hdispatch hidle, fun plan hplan => ?_⟩
  cases h with
  | fresh => cases hplan
  | resume hk hfid hknown =>
    cases hplan
    exact ⟨hknown _ (Or.inl (Or.inr (Or.inr (Or.inr (Or.inr ⟨.fix, fid, hk, hfid, rfl⟩))))),
      hknown _ (Or.inr (Or.inr (Or.inr (Or.inr ⟨fid, hk, hfid, rfl⟩))))⟩

end Dispatched

theorem conforms_runFindingJob {kind : FindingJobKind} {fid : Nat} {resume : Option ResumePlan}
    (hcalm : Calm a) (h : Dispatched a kind fid resume) (hdispatch : Fact.dispatching ∈ a)
    (hidle : Fact.runningIn [] ∈ a) : Conforms a (runFindingJob kind fid resume) := by
  refine follows_bind.2 (follows_read rfl (fun finding a1 _ h1 hlearn => ?_)
    fun _ _ h => h.calm hcalm)
  have hc1 := h1.calm hcalm
  have h := h.grows h1
  have hdispatch := h1.mem hdispatch
  have hidle := h1.mem hidle
  cases finding with
  | none => exact hc1
  | some finding =>
    have hrow : Fact.row fid finding ∈ a1 := hlearn _ ⟨finding, rfl, Or.inl rfl⟩
    have hmode : Budgeted a1 fid finding.budgetOverride :=
      fun honce => hlearn _ ⟨finding, rfl, Or.inr (Or.inr ⟨honce, rfl⟩)⟩
    cases kind with
    | engage =>
      exact conforms_runEngage hc1 hrow hmode (h.due (by simp)) (h.resumes hdispatch hidle)
    | harvest =>
      exact conforms_runHarvest hc1 hrow hmode
        (.due (h.due (by simp)) (h.resumes hdispatch hidle))
    | recheck =>
      exact conforms_runRecheck hc1 hrow hmode (fun _ => h.due (by simp))
        (h.resumes hdispatch hidle)
    | fix => exact conforms_runFix hc1 hrow hmode (h.resumesFix hdispatch hidle)

theorem conforms_dispatch {candidate : Candidate} (hcalm : Calm a)
    (hknown : ∀ x ∈ (Phase.dispatch candidate).known, x ∈ a) : Conforms a (dispatch candidate) := by
  have hdispatch : Fact.dispatching ∈ a := hknown _ (Or.inl rfl)
  have hidle : Fact.runningIn [] ∈ a := hknown _ (Or.inr (Or.inl rfl))
  have hpicked : ∀ x ∈ candidate.known, x ∈ a := fun x hx => hknown x (Or.inr (Or.inr hx))
  cases candidate with
  | finding kind fid =>
    exact conforms_runFindingJob hcalm (.fresh (hpicked _ rfl)) hdispatch hidle
  | repo kind repoId =>
    have hresume : Resumes a (.repo kind) repoId none none := ⟨hdispatch, hidle, nofun, nofun⟩
    exact (conforms_runRepoJob hcalm hresume nofun nofun).andThen fun _ _ hc => hc
  | resume plan =>
    unfold dispatch
    dsimp only
    split
    · rename_i kind hkind
      have hsession : ∀ p, some plan = some p → a.mayResume p.predecessorId p.sessionFile := by
        intro p hp
        cases hp
        exact mayResume_known hpicked
      refine (conforms_runRepoJob hcalm ⟨hdispatch, hidle, fun p hp => ?_, hsession⟩
        (fun p hp => ?_) fun p hp => ?_).andThen fun _ _ hc => hc
      · cases hp
        refine ⟨plan.findingId, hpicked _ (Or.inl (Or.inl ?_)), hpicked _ (Or.inr (Or.inl rfl)),
          hpicked _ (Or.inl (Or.inr (Or.inl rfl)))⟩
        rw [hkind]
      · cases hp
        exact hpicked _ (Or.inr (Or.inr (Or.inr (Or.inl rfl))))
      · cases hp
        exact hpicked _ (Or.inr (Or.inr (Or.inl rfl)))
    · rename_i kind hkind
      split
      · exact hcalm
      · rename_i fid hfid
        exact conforms_runFindingJob hcalm (.resume hkind hfid hpicked) hdispatch hidle

/-- A phase ends with no merge half-recorded, knowing what the next one starts from. -/
def Ready (a : Memory) (phase : Phase) : Prop :=
  Calm a ∧ ∀ x ∈ phase.known, x = .dispatching ∨ x ∈ a

abbrev Ends (a : Memory) (p : Act Phase) : Prop :=
  Follows protocol a p (Machine.Ending Ready Calm)

def Idle (a : Memory) : Prop := Fact.dispatching ∉ a ∧ Fact.runningIn [] ∈ a

theorem not_learns_dispatching {β : Type} {a : Memory} {c : Call β} {b : β} :
    ¬ c.learns a b .dispatching := by
  intro h
  cases c with
  | ask q => exact h
  | tree c => cases TreeCall.learns_told h
  | store c =>
    cases b with
    | error e => exact h
    | ok b =>
      change c.learns a b .dispatching at h
      cases c with
      | listResumableJobs =>
        obtain ⟨row, -, h⟩ := h
        cases offerTells_listed h
      | findingsWithStatus =>
        obtain ⟨row, -, h⟩ := h
        cases tells_listed h
      | _ => simp_all [StoreCall.learns]

theorem runningIn_kept {β : Type} {a : Memory} {c : Call β} {b : β} (hallow : c.allowed a)
    (hidle : Idle a) : ¬ c.forgets b (.runningIn []) := by
  intro h
  cases c with
  | ask q => exact h
  | tree c =>
    cases c <;> simp_all [Call.forgets, TreeCall.forgets, Fact.isTree, Fact.isLapsed,
      Fact.onRun, Fact.isOutput]
  | store c =>
    cases b with
    | error e =>
      cases c <;> simp_all [Call.forgets, StoreCall.forgetsAnswer, StoreCall.forgetsFailed]
    | ok b =>
      cases c with
      | createJob => exact hidle.1 hallow.2.dispatching
      | _ => simp_all [Call.forgets, StoreCall.forgetsAnswer, StoreCall.forgets, Fact.onSpend,
          Fact.onEnd, Fact.isOffer, Fact.onHold, Fact.onStatus, Fact.onAnchor, Fact.isHeld,
          Fact.onBranch, Fact.onWatermark, Fact.isAsked, Fact.isPinned, Fact.isMarked,
          Fact.isFiled, Fact.isOneShot]

theorem Idle.next {β : Type} {a : Memory} {c : Call β} {b : β} (hallow : c.allowed a)
    (hidle : Idle a) : Idle (a.next c b) := by
  refine ⟨?_, Or.inl ⟨hidle.2, runningIn_kept hallow hidle⟩⟩
  rintro (h | h)
  · exact hidle.1 h.1
  · exact not_learns_dispatching h

def ReadyIdle (a : Memory) (phase : Phase) : Prop :=
  Calm a ∧ ∀ x ∈ phase.known, x = .dispatching ∨ x = .runningIn [] ∨ x ∈ a

theorem ends_of_idle {p : Act Phase} (h : Follows protocol a p (Machine.Ending ReadyIdle Calm))
    (hidle : Idle a) : Ends a p := by
  refine (h.keep (fun _ _ _ hallow hidle => hidle.next hallow) hidle).mono fun r a' h' => ?_
  cases r with
  | error e => exact h'.1
  | ok phase =>
    refine ⟨h'.1.1, fun x hx => ?_⟩
    rcases h'.1.2 x hx with h | rfl | h
    · exact Or.inl h
    · exact Or.inr h'.2.2
    · exact Or.inr h

theorem follows_runCycle (hcalm : Calm a) :
    Follows protocol a runCycle (Machine.Ending ReadyIdle Calm) := by
  refine follows_bind.2 (((peaceful_sql rfl).conforms hcalm).mono fun r a1 hc1 => ?_)
  cases r with
  | error e => exact hc1
  | ok list =>
    refine follows_bind.2 ((conforms_onlyIf hc1 (conforms_syncPrs hc1)).mono fun r a2 hc2 => ?_)
    cases r with
    | error e => exact hc2
    | ok _ =>
      refine follows_bind.2 (follows_ask.2 ⟨trivial, fun full => ?_⟩)
      cases full
      · exact ⟨hc2, fun _ hx => Or.inr (Or.inl hx)⟩
      · exact ⟨hc2, fun _ hx => hx.elim⟩

theorem ends_runPhase (phase : Phase) (hcalm : Calm phase.known) :
    Ends phase.known (runPhase phase) := by
  cases phase with
  | startup =>
    exact follows_reapAndSweep hcalm (fun _ _ hc1 => hc1) fun _ hc1 => ⟨hc1, fun _ hx => hx.elim⟩
  | reconcile =>
    refine follows_bind.2 ((follows_reconcileAndLog hcalm).mono fun r a1 h1 => ?_)
    cases r with
    | error e => exact h1.1
    | ok _ => exact ⟨h1.1, fun x hx => Or.inr (by rw [hx]; exact h1.2 rfl)⟩
  | cycle =>
    exact ends_of_idle (follows_reapAndSweep hcalm (fun _ _ hc1 => hc1) fun _ => follows_runCycle)
      ⟨nofun, rfl⟩
  | dispatch candidate =>
    refine follows_bind.2 ((conforms_dispatch hcalm fun _ hx => hx).mono fun r a1 hc1 => ?_)
    cases r with
    | error e => exact hc1
    | ok _ => exact ⟨hc1, fun _ hx => hx.elim⟩
  | select =>
    refine ends_of_idle (follows_bind.2 ((follows_select hcalm).mono fun r a1 h1 => ?_))
      ⟨nofun, rfl⟩
    cases r with
    | error e => exact h1.1
    | ok selection =>
      cases selection with
      | again => exact ⟨h1.1, fun _ hx => Or.inr (Or.inl hx)⟩
      | idle => exact ⟨h1.1, fun _ hx => hx.elim⟩
      | picked candidate =>
        exact ⟨h1.1, fun x hx => hx.imp_right fun hx => hx.imp_right (h1.2 candidate rfl x)⟩

theorem calm_known (phase : Phase) : Calm phase.known :=
  fun _ hf => by cases Phase.known_handedOver hf

theorem answers_of_callStep {β : Type} {c : Call β} {w w' : World} {b : β}
    (h : CallStep c w b w') : c.answers b := by
  cases h with
  | store happly => exact ⟨_, _, happly⟩
  | _ => trivial

def follower : Machine.Follower daemon protocol where
  entry := Phase.known
  ready := Ready
  aborted := Calm
  answers _ _ _ _ h := answers_of_callStep h
  follows phase := ends_runPhase phase (calm_known phase)

end Hunter
