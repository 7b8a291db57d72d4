import Hunter.Conformance.Hunts
set_option autoImplicit false

namespace Hunter
open Effect

variable {a : Memory}

theorem tame_harvestPrefetchFailed (fid : Nat) (handoff : Bool) (key : Text) :
    Tame (harvestPrefetchFailed fid handoff key) := by
  unfold harvestPrefetchFailed
  split
  · exact tame_done _
  · exact tame_bind (tame_recordHarvestFailure _ _) fun _ => tame_done _

theorem tame_recordClosedHarvest {fid : Nat} {verdict : CloseVerdict} {sha : Text} {now : Int} :
    Tame (sqlResult (.recordClosedHarvest fid verdict.cls.status verdict.reason
      (verdictAnchor verdict.cls.status sha verdict.parts) now)) := by
  have hfair := @anchorsFairly_verdictAnchor _ sha verdict.parts verdict.cls.status_ne_blocked
  exact fun _ => follows_sqlResult.2
    ⟨hfair, fun _ _ => settles_next rfl rfl, fun _ => settles_next rfl rfl⟩

theorem tame_recordReviewed (fid repoId : Nat) (pinned : Text) (resumed : Bool)
    (closure : Option (Except CloseFailure CloseVerdict)) :
    Tame (recordReviewed fid repoId pinned resumed closure) := by
  unfold recordReviewed
  split
  · refine tame_bind ?_ fun judgedAt => ?_
    · split
      · exact tame_bind (peaceful_ask rfl).tame fun _ => tame_done _
      · exact tame_done _
    · refine tame_bind (peaceful_ask rfl).tame fun _ => ?_
      refine tame_bind tame_recordClosedHarvest fun r => ?_
      cases r <;> exact tame_done _
  · refine tame_bind (peaceful_ask rfl).tame fun _ => ?_
    exact tame_bind (tame_log rfl) fun _ => tame_done _

theorem settling_concludeHarvest {fid : Nat} {finding : Finding} {job : Nat} {ws : Workspace}
    {closed : Bool} {resume : Option ResumePlan} {state : JobState}
    (hmode : Budgeted a fid finding.budgetOverride) :
    Settling a (concludeHarvest fid finding job ws closed resume state) := by
  refine Settling.andThen (Tame.follows ?_) fun closure a1 h1 => ?_
  · split
    · exact tame_bind (peaceful_ask rfl).tame fun _ => tame_done _
    · exact tame_done _
  refine Settling.andThen (Tame.follows ?_) fun gaveUp a2 h2 => ?_
  · split
    · split
      · exact tame_done _
      · exact tame_bind (tame_recordHarvestFailure _ _) fun _ => tame_done _
    · exact tame_done _
  refine Settling.andThen (tame_onlyIf (tame_ingestFollowups _ _ _)).follows fun _ a3 h3 => ?_
  refine Settling.andThen (peaceful_closeWorkspace _).tame.follows fun _ a4 h4 => ?_
  have hmode4 := hmode.settles (((h1.trans h2).trans h3).trans h4)
  split
  · exact settling_clearOnce hmode4
  · split
    · split
      · exact settling_done _
      · exact settling_clearOnce hmode4
    · refine Settling.andThen (tame_recordReviewed _ _ _ _ _).follows fun _ a5 h5 => ?_
      refine Settling.andThen (tame_onlyIf (tame_log rfl)).follows fun _ a6 h6 => ?_
      exact settling_clearOnce ((hmode4.settles h5).settles h6)

theorem conforms_runHarvestJob {fid : Nat} {finding : Finding} {repo : Repo} {closed : Bool}
    {resume : Option ResumePlan} {created : CreatedJob} (hcalm : Calm a)
    (hmode : Budgeted a fid finding.budgetOverride) (hlaunch : Launching a created.id resume)
    (hfresh : resume = none → Fact.fresh created.id none ∈ a) :
    Conforms a (runHarvestJob fid finding repo closed resume created) := by
  refine conforms_openedJob hcalm hlaunch hfresh ?_ fun _ _ _ hc => hc
  intro ws a1 h1 hc1 hlaunch1
  refine conforms_recorded hc1 hlaunch1 fun state a2 h2 hc2 => ?_
  have hmode2 := (hmode.keeps h1 (by simp [Fact.isTree])).keeps h2 (by simp [Fact.onRecord])
  exact (settling_concludeHarvest hmode2).conforms hc2

theorem follows_prefetchHarvest {fid : Nat} {prNumber : Int} {closed : Bool}
    {resume : Option ResumePlan} {Q : Except Text Unit → Memory → Prop} (hcalm : Calm a)
    (hok : ∀ a', Grows a a' → Q (.ok ()) a') (herr : ∀ e a', Calm a' → Q (.error e) a') :
    Follows protocol a (prefetchHarvest fid prNumber closed resume) Q := by
  have hfail : ∀ {a' key} {e : String}, Calm a' → Follows protocol a' (do
      harvestPrefetchFailed fid (resume.any ResumePlan.handoff) key
      bail e) Q := by
    intro a' key e hc
    refine follows_bind.2 ((tame_harvestPrefetchFailed _ _ _).follows.mono fun r a2 h2 => ?_)
    cases r <;> exact herr _ _ (h2.calm hc)
  refine (peaceful_ask rfl).bind (fun r a1 h1 => ?_) fun e _ h => herr e _ (h.calm hcalm)
  cases r with
  | error e => exact hfail (h1.calm hcalm)
  | ok view =>
    dsimp only
    split
    · refine (peaceful_ask rfl).bind (fun r a2 h2 => ?_)
        fun e _ h => herr e _ (h.calm (h1.calm hcalm))
      cases r with
      | error e => exact hfail (h2.calm (h1.calm hcalm))
      | ok _ => exact hok _ (h1.trans h2)
    · exact hok _ h1

/-- A harvest is of a finding listed for it, or goes on with a concluded engage's session. -/
inductive Harvesting (a : Memory) (fid repoId : Nat) (resume : Option ResumePlan) : Prop
  | due : Fact.harvestable fid ∈ a → Resumes a (.finding .harvest) repoId (some fid) resume →
      Harvesting a fid repoId resume
  | handoff {plan : ResumePlan} : resume = some plan → Fact.dispatching ∈ a →
      Fact.engaged plan.predecessorId fid ∈ a → Fact.runningIn [plan.predecessorId] ∈ a →
      a.mayResume plan.predecessorId plan.sessionFile → Harvesting a fid repoId resume

theorem Harvesting.grows {b : Memory} {fid repoId : Nat} {resume : Option ResumePlan}
    (h : Harvesting a fid repoId resume) (hab : Grows a b) : Harvesting b fid repoId resume := by
  cases h with
  | due hdue hresume => exact .due (hab.mem hdue) (hresume.grows hab)
  | handoff hplan hdispatch hengaged halone hsession =>
    exact .handoff hplan (hab.mem hdispatch) (hab.mem hengaged) (hab.mem halone)
      (hsession.grows hab)

theorem Harvesting.session {fid repoId : Nat} {resume : Option ResumePlan}
    (h : Harvesting a fid repoId resume) :
    ∀ plan, resume = some plan → a.mayResume plan.predecessorId plan.sessionFile := by
  cases h with
  | due _ hresume => exact hresume.session
  | handoff hplan _ _ _ hsession =>
    intro plan hplan'
    cases hplan.symm.trans hplan'
    exact hsession

theorem Harvesting.mayCreate {fid : Nat} {finding : Finding} {resume : Option ResumePlan}
    (h : Harvesting a fid finding.repoId resume) (hrow : Fact.row fid finding ∈ a) :
    a.MayCreate (.finding .harvest) finding.repoId (some fid) (resumePredecessor resume) := by
  cases h with
  | due hdue hresume => exact hresume.mayCreate hrow (Or.inl hdue)
  | handoff hplan hdispatch hengaged halone _ =>
    subst hplan
    have hover : a.handsOver (.finding .harvest) (some fid) _ :=
      ⟨rfl, fid, rfl, hengaged, halone⟩
    refine ⟨hdispatch, Or.inr ⟨_, rfl, hover⟩, fun p hp => ?_, fid, finding, rfl, hrow, rfl,
      Or.inr ⟨_, rfl, hengaged⟩⟩
    cases hp
    exact Or.inr hover

theorem conforms_runHarvest {fid : Nat} {finding : Finding} {resume : Option ResumePlan}
    (hcalm : Calm a) (hrow : Fact.row fid finding ∈ a)
    (hmode : Budgeted a fid finding.budgetOverride)
    (hdue : Harvesting a fid finding.repoId resume) :
    Conforms a (runHarvest fid finding resume) := by
  refine (peaceful_liveRepo _).andThen hcalm fun repo a1 h1 hc1 => ?_
  refine (peaceful_livePrState _).andThen hc1 fun ps a2 h2 hc2 => ?_
  refine (peaceful_prTarget _ _ _).andThen hc2 fun prNumber a3 h3 hc3 => ?_
  refine (peaceful_onlyIf (peaceful_tryAsk rfl)).andThen hc3 fun _ a4 h4 hc4 => ?_
  refine (peaceful_tryAsk rfl).andThen hc4 fun decision a5 h5 hc5 => ?_
  cases decision with
  | denied => exact hc5
  | approved =>
    have h : Grows a a5 := (((h1.trans h2).trans h3).trans h4).trans h5
    refine follows_bind.2 (follows_prefetchHarvest hc5 (fun a6 h6 => ?_) fun _ _ hc => hc)
    have hc6 := h6.calm hc5
    have hdue6 := hdue.grows (h.trans h6)
    have hmay := hdue6.mayCreate ((h.trans h6).mem hrow)
    refine follows_bind.2 (follows_createJob hmay ?_ ?_ ?_)
    · intro created a7 h7
      have hmode7 := (hmode.grows (h.trans h6)).keeps h7.keeps (by simp [Fact.onCreate])
      exact conforms_runHarvestJob (h7.keeps.calm hc6) hmode7
        (h7.launching (Or.inl (by simp)) hdue6.session) fun hr => h7.fresh (resume_eq_none hr)
    · exact fun a7 h7 => h7.calm hc6
    · exact fun _ a7 h7 => h7.calm hc6

/-- Facts about finding `f` that syncing its pull request may undo. -/
def Fact.onSync (f : Nat) (x : Fact) : Prop :=
  x.onStatus f ∨ x.onAnchor f ∨ x = .closedRow f ∨ x = .merging f

/-- What syncing one finding leaves of what is known of others. -/
structure SyncedApart (a b : Memory) (f : Nat) : Prop where
  known : ∀ x ∈ a, ¬ x.onSync f → x ∈ b
  calm : Calm b

theorem SyncedApart.ofKeeps {b : Memory} {f : Nat} (h : Keeps (Fact.onSync f) a b)
    (hcalm : Calm a) : SyncedApart a b f :=
  ⟨h.known, h.calm hcalm⟩

def Listed (a : Memory) (row : Row Finding) : Prop :=
  Fact.held row.id .prOpen ∈ a ∧
    (if row.val.url.isSome then Fact.linked row.id else .urlless row.id) ∈ a

theorem follows_syncMerged {fid : Nat} {prNumber : Int} (hcalm : Calm a)
    (hheld : Fact.held fid .prOpen ∈ a) :
    Follows protocol a (syncMerged fid prNumber) fun _ a' => SyncedApart a a' fid := by
  -- recording the merge ends the wait for it, whether or not the write lands
  have hmark : ∀ a1, (∀ x ∈ a, ¬ x.onSync fid → x ∈ a1) →
      (∀ f, f ≠ fid → Fact.merging f ∉ a1) →
      (Fact.merging fid ∈ a1 ∨ Fact.held fid .prOpen ∈ a1) → ∀ now,
      Follows protocol a1 (logWriteFailure (.markPrMerged fid prNumber now))
        fun _ a' => SyncedApart a a' fid := by
    intro a1 hkeep hother hallow now
    have hend : ∀ b : Except Text Unit,
        SyncedApart a (a1.next (.store (.markPrMerged fid prNumber now)) b) fid := by
      intro b
      refine ⟨fun x hx hs => ?_, fun f hf => ?_⟩
      · refine Or.inl ⟨hkeep x hx hs, fun hforget => hs ?_⟩
        cases b with
        | ok _ => exact Or.inr (Or.inr (hforget.elim Or.inr Or.inl))
        | error e => exact Or.inr (Or.inr (Or.inr hforget))
      · rcases hf with ⟨hf, hforget⟩ | hf
        · by_cases heq : f = fid
          · subst heq
            cases b with
            | ok _ => exact hforget (Or.inl rfl)
            | error e => exact hforget rfl
          · exact hother f heq hf
        · cases b <;> exact hf
    exact follows_logWriteFailure.2 ⟨hallow, fun b _ => hend _, fun e => hend _⟩
  refine follows_bind.2 (follows_ask.2 ⟨trivial, fun now => ?_⟩)
  refine follows_bind.2 (follows_logWriteFailure.2 ⟨hheld, fun b _ => ?_, fun e => ?_⟩)
  · refine hmark _ (fun x hx hs => ?_) (fun f hne hf => ?_) (Or.inl ?_) now
    · exact Or.inl ⟨hx, fun h => hs (Or.inl h)⟩
    · rcases hf with hf | hf
      · exact hcalm f hf.1
      · cases hf.2
        exact hne rfl
    · exact Or.inr ⟨rfl, rfl⟩
  · have h : Grows a (a.next (.store (.setFindingStatus fid .merged)) (.error e)) :=
      grows_error rfl
    exact hmark _ (fun x hx _ => h.mem hx) (fun f _ => h.calm hcalm f) (Or.inr (h.mem hheld)) now

theorem follows_syncClosed {fid : Nat} {prNumber : Int} (hcalm : Calm a)
    (hheld : Fact.held fid .prOpen ∈ a) :
    Follows protocol a (syncClosed fid prNumber) fun _ a' => SyncedApart a a' fid := by
  refine follows_bind.2 (follows_ask.2 ⟨trivial, fun now => ?_⟩)
  refine follows_bind.2 (follows_sqlResult.2 ⟨hheld, fun b _ => ?_, fun e => ?_⟩)
  · have h1 : Grows a (a.next (.store (.markPrClosed fid prNumber now)) (.ok b)) :=
      keeps_next (fun _ hx => hx) fun _ => not_learns_merging rfl
    have hallow : (StoreCall.setAnchoredVerdict fid .closed
        "PR closed without merge; awaiting harvest".toList none).allowed
        (a.next (.store (.markPrClosed fid prNumber now)) (.ok b)) :=
      ⟨anchorsFairly_none (by decide), Or.inr (Or.inr ⟨rfl, h1.mem hheld, Or.inr rfl⟩)⟩
    refine follows_logWriteFailure.2 ⟨hallow, fun b _ => ?_, fun e => ?_⟩
    · refine SyncedApart.ofKeeps (h1.grows.trans (keeps_next ?_ ?_)) hcalm
      · exact fun x hx => hx.elim Or.inl fun hx => Or.inr (Or.inl hx)
      · exact fun _ => not_learns_merging rfl
    · exact SyncedApart.ofKeeps (h1.trans (grows_error rfl)).grows hcalm
  · exact SyncedApart.ofKeeps (grows_error rfl).grows hcalm

theorem follows_syncOpen {fid : Nat} {prNumber : Int} {pr : PrView} (hcalm : Calm a)
    (hheld : Fact.held fid .prOpen ∈ a) :
    Follows protocol a (syncOpen fid prNumber pr) fun _ a' => SyncedApart a a' fid := by
  refine Peaceful.bind (quiet_bind (peaceful_sqlResult rfl) fun r => ?_) (fun prev a1 h1 => ?_)
    fun _ _ h => .ofKeeps h.grows hcalm
  · cases r <;> trivial
  refine follows_bind.2 (follows_ask.2 ⟨trivial, fun since => ?_⟩)
  refine follows_bind.2 (follows_ask.2 ⟨trivial, fun syncedAt => ?_⟩)
  refine follows_logWriteFailure.2 ⟨h1.mem hheld, fun b _ => ?_, fun e => ?_⟩
  · refine SyncedApart.ofKeeps (h1.grows.trans (keeps_next ?_ ?_)) hcalm
    · exact fun x hx => Or.inr (Or.inr (Or.inl hx))
    · exact fun _ => not_learns_merging rfl
  · exact SyncedApart.ofKeeps (h1.trans (grows_error rfl)).grows hcalm

theorem follows_syncPr {row : Row Finding} (hcalm : Calm a) (hlisted : Listed a row) :
    Follows protocol a (syncPr row.id row.val) fun _ a' => SyncedApart a a' row.id := by
  have hnothing : ∀ {a'}, Grows a a' → SyncedApart a a' row.id :=
    fun h => .ofKeeps h.grows hcalm
  unfold syncPr
  split
  · rename_i hurl
    have hurlless : Fact.urlless row.id ∈ a := by simpa [hurl] using hlisted.2
    refine follows_logWriteFailure.2
      ⟨Or.inr ⟨hlisted.1, hurlless⟩, fun b _ => ?_, fun e => hnothing (grows_error rfl)⟩
    exact .ofKeeps (keeps_next (fun _ hx => Or.inl hx) fun _ => not_learns_merging rfl) hcalm
  · rename_i url hurl
    have hlinked : Fact.linked row.id ∈ a := by simpa [hurl] using hlisted.2
    refine (peaceful_sqlResult rfl).bind (fun repo a1 h1 => ?_) fun _ _ h => hnothing h
    have hapart : ∀ {a'}, SyncedApart a1 a' row.id → SyncedApart a a' row.id :=
      fun h => ⟨fun x hx => h.known x (h1.mem hx), h.calm⟩
    have hcalm1 := h1.calm hcalm
    have hheld1 := h1.mem hlisted.1
    split
    · refine follows_bind.2 (follows_ask.2 ⟨trivial, fun prNumber => ?_⟩)
      cases prNumber with
      | none => exact hnothing h1
      | some prNumber =>
        refine follows_bind.2 (follows_ask.2 ⟨h1.mem hlinked, fun view => ?_⟩)
        cases view with
        | error e => exact hnothing h1
        | ok pr =>
          dsimp only [onOk]
          split
          · exact (follows_syncMerged hcalm1 hheld1).mono fun _ _ h => hapart h
          · exact (follows_syncClosed hcalm1 hheld1).mono fun _ _ h => hapart h
          · exact (follows_syncOpen hcalm1 hheld1).mono fun _ _ h => hapart h
    · exact hnothing h1

theorem conforms_syncEach {list : List (Row Finding)} (hcalm : Calm a)
    (hnodup : (list.map Row.id).Nodup) (hlisted : ∀ row ∈ list, Listed a row) :
    Conforms a (syncEach list) := by
  induction list generalizing a with
  | nil => exact hcalm
  | cons row rest ih =>
    refine follows_bind.2 ((follows_syncPr hcalm (hlisted row (by simp))).mono fun r a1 h1 => ?_)
    cases r with
    | error e => exact h1.calm
    | ok _ =>
      rw [List.map_cons, List.nodup_cons] at hnodup
      refine ih h1.calm hnodup.2 fun other hother => ?_
      have hne : other.id ≠ row.id := fun h => hnodup.1 (h ▸ List.mem_map_of_mem hother)
      obtain ⟨hheld, hurl⟩ := hlisted other (by simp [hother])
      refine ⟨h1.known _ hheld ?_, h1.known _ hurl ?_⟩
      · simp [Fact.onSync, Fact.onStatus, Fact.onAnchor, hne]
      · split <;> simp [Fact.onSync, Fact.onStatus, Fact.onAnchor]

theorem conforms_syncPrs (hcalm : Calm a) : Conforms a syncPrs := by
  refine follows_bind.2 (follows_sqlResult.2 ⟨trivial, fun list hlist => ?_, fun e => ?_⟩)
  · obtain ⟨s, s', happly⟩ := hlist
    cases happly
    have hquiet := (quietCall_store (c := .findingsWithStatus .prOpen) rfl a).2
      (.ok (s.findingsWithStatus .prOpen)) ⟨s, s, rfl⟩
    refine conforms_syncEach (Keeps.calm hquiet hcalm) ?_ fun row hrow => ⟨?_, ?_⟩
    · rw [Store.findingsWithStatus, List.map_reverse, List.nodup_reverse]
      exact nodup_filter_rows _
    · exact Or.inr ⟨row, hrow, Or.inl ⟨rfl, rfl⟩⟩
    · exact Or.inr ⟨row, hrow, Or.inr (Or.inr ⟨rfl, rfl⟩)⟩
  · exact (grows_error rfl).calm hcalm

theorem peaceful_engageTarget (fid : Nat) (finding : Finding) (resume : Option ResumePlan) :
    Peaceful (engageTarget fid finding resume) := by
  refine quiet_bind (peaceful_liveRepo _) fun repo => ?_
  refine quiet_bind (peaceful_livePrState _) fun ps => ?_
  split
  · trivial
  · refine quiet_bind (peaceful_prTarget _ _ _) fun prNumber => ?_
    split
    · trivial
    · exact quiet_bind (peaceful_onlyIf (peaceful_tryAsk rfl)) fun _ => trivial

/-- What is known of a started engage until its end is recorded. -/
structure Engaging (a : Memory) (fid : Nat) (start : EngageStart) : Prop where
  calm : Calm a
  held : Fact.held fid .prOpen ∈ a
  dispatching : Fact.dispatching ∈ a
  engaged : Fact.engaged start.job fid ∈ a
  alone : Fact.runningIn [start.job] ∈ a
  unheld : Fact.unheld start.job ∈ a

theorem Engaging.keeps {b : Memory} {fid : Nat} {start : EngageStart} {drop : Fact → Prop}
    (h : Engaging a fid start) (hab : Keeps drop a b) (hdrop : ∀ x, drop x → x.onRecord) :
    Engaging b fid start := by
  have hkeep : ∀ x ∈ a, x.onRecord = false → x ∈ b := by
    intro x hx hr
    refine hab.known x hx fun hd => ?_
    rw [hdrop x hd] at hr
    cases hr
  exact {
    calm := hab.calm h.calm
    held := hkeep _ h.held rfl
    dispatching := hkeep _ h.dispatching rfl
    engaged := hkeep _ h.engaged rfl
    alone := hkeep _ h.alone rfl
    unheld := hkeep _ h.unheld rfl }

theorem Engaging.grows {b : Memory} {fid : Nat} {start : EngageStart}
    (h : Engaging a fid start) (hab : Grows a b) : Engaging b fid start :=
  h.keeps hab fun _ hx => hx.elim

theorem follows_startEngage {fid : Nat} {finding : Finding} {resume : Option ResumePlan}
    {Q : Except Text (Option EngageStart) → Memory → Prop} (hcalm : Calm a)
    (hrow : Fact.row fid finding ∈ a) (hmode : Budgeted a fid finding.budgetOverride)
    (hheld : Fact.held fid .prOpen ∈ a)
    (hresume : Resumes a (.finding .engage) finding.repoId (some fid) resume)
    (hstart : ∀ start a', Engaging a' fid start → Budgeted a' fid finding.budgetOverride →
      Launching a' start.job resume → Q (.ok (some start)) a')
    (hnot : ∀ a', Calm a' → Q (.ok none) a') (herr : ∀ e a', Calm a' → Q (.error e) a') :
    Follows protocol a (startEngage fid finding resume) Q := by
  refine (peaceful_engageTarget _ _ _).bind (fun target a1 h1 => ?_)
    fun e _ h => herr e _ (h.calm hcalm)
  have hc1 := h1.calm hcalm
  refine (peaceful_tryAsk rfl).bind (fun decision a2 h2 => ?_) fun e _ h => herr e _ (h.calm hc1)
  have hc2 := h2.calm hc1
  cases decision with
  | denied => exact hnot _ hc2
  | approved =>
    refine (peaceful_ask rfl).bind (fun view a3 h3 => ?_) fun e _ h => herr e _ (h.calm hc2)
    have hc3 := h3.calm hc2
    cases view with
    | error e => exact herr _ _ hc3
    | ok pr =>
      have h : Grows a a3 := (h1.trans h2).trans h3
      have hresume3 := hresume.grows h
      refine follows_bind.2 (follows_createJob (hresume3.mayCreate (h.mem hrow) trivial) ?_ ?_ ?_)
      · intro created a4 h4
        have hkeep4 : ∀ x ∈ a3, x.onCreate = false → x ∈ a4 :=
          fun x hx ho => h4.keeps.known x hx (by simp [ho])
        have hengaging : ∀ {b} {start : EngageStart}, start.job = created.id → Calm b →
            (∀ x ∈ a4, x.isTree = false → x ∈ b) → Engaging b fid start := by
          intro b start hjob hc hkeep
          exact {
            calm := hc
            held := hkeep _ (hkeep4 _ (h.mem hheld) rfl) rfl
            dispatching := hkeep _ (hkeep4 _ hresume3.dispatching rfl) rfl
            engaged := hkeep _ (by rw [hjob]; exact h4.engaged fid rfl rfl) rfl
            alone := hkeep _ (by rw [hjob]; exact h4.runningIn [] hresume3.idle) rfl
            unheld := hkeep _ (by rw [hjob]; exact h4.unheld) rfl }
        have hc4 := h4.keeps.calm hc3
        have hmode4 := (hmode.grows h).keeps h4.keeps (by simp [Fact.onCreate])
        have hlaunch4 : Launching a4 created.id resume :=
          h4.launching (Or.inl (by simp)) hresume3.session
        refine follows_bind.2 (follows_openWorkspace hc4 ?_ ?_ ?_ ?_ herr)
        · exact fun hr =>
            ⟨h4.running, none, h4.fresh (resume_eq_none hr), fun f hf => by cases hf⟩
        · exact fun plan _ => hstart _ _ (hengaging rfl hc4 fun _ hx _ => hx) hmode4 hlaunch4
        · intro _ sha a5 h5 _ _ _
          refine hstart _ _ (hengaging rfl (h5.calm hc4) fun x hx ht =>
            h5.known x hx (by simp [ht])) (hmode4.keeps h5 (by simp [Fact.isTree])) ?_
          exact hlaunch4.keeps h5 fun _ => Fact.apart_of_isTree
        · exact fun _ why a5 h5 => hnot _ (h5.calm hc4)
      · exact fun a4 h4 => hnot _ (h4.calm hc3)
      · exact fun e a4 h4 => herr _ _ (h4.calm hc3)

/-- What is still known of an engage whose pull request is withdrawn. -/
structure Withdrawn (a : Memory) (fid : Nat) (start : EngageStart) (rr : RunResult) : Prop where
  calm : Calm a
  dispatching : Fact.dispatching ∈ a
  engaged : Fact.engaged start.job fid ∈ a
  alone : Fact.runningIn [start.job] ∈ a
  unheld : Fact.unheld start.job ∈ a
  ran : Fact.ran start.job rr ∈ a

theorem Engaging.withdrawn {fid : Nat} {start : EngageStart} {rr : RunResult}
    (h : Engaging a fid start) (hran : Fact.ran start.job rr ∈ a) : Withdrawn a fid start rr :=
  ⟨h.calm, h.dispatching, h.engaged, h.alone, h.unheld, hran⟩

theorem follows_withdrawPr {fid repoId : Nat} {start : EngageStart} {reason : Text}
    {rr : RunResult} (h : Engaging a fid start) (hran : Fact.ran start.job rr ∈ a) :
    Follows protocol a (withdrawPr fid repoId start reason) fun _ a' =>
      Withdrawn a' fid start rr := by
  have hend : ∀ {a'}, Grows a a' → Withdrawn a' fid start rr :=
    fun hg => (h.grows hg).withdrawn (hg.mem hran)
  refine Peaceful.bind (quiet_bind (peaceful_ask rfl) fun owner => ?_)
    (fun forgeClosed a1 h1 => ?_) fun _ _ hg => hend hg
  · cases owner with
    | error e => trivial
    | ok _ =>
      refine quiet_bind (peaceful_ask rfl) fun closed => ?_
      cases closed <;> trivial
  split
  · refine (peaceful_seenActivity _).bind (fun mark a2 h2 => ?_) fun _ _ hg => hend (h1.trans hg)
    refine follows_bind.2 (follows_ask.2 ⟨trivial, fun now => ?_⟩)
    refine (peaceful_log rfl).bind (fun _ a3 h3 => ?_)
      fun _ _ hg => hend ((h1.trans h2).trans hg)
    exact hend ((h1.trans h2).trans h3)
  · have hg1 := h.grows h1
    refine follows_bind.2 (follows_ask.2 ⟨trivial, fun now => ?_⟩)
    refine follows_bind.2 (follows_sqlResult.2 ⟨hg1.held, fun b _ => ?_, fun e => ?_⟩)
    rotate_left
    · exact hend (h1.trans (grows_error rfl))
    have h2 : Grows a1 (a1.next (.store (.markPrClosed fid start.prNumber now)) (.ok b)) :=
      keeps_next (fun _ hx => hx) fun _ => not_learns_merging rfl
    have hg2 := hg1.grows h2
    refine follows_bind.2 (follows_sqlResult.2
      ⟨⟨anchorsFairly_none (by decide), Or.inr (Or.inr ⟨rfl, hg2.held, Or.inr rfl⟩)⟩,
        fun b _ => ?_, fun e => ?_⟩)
    · have h3 : Keeps (fun x => x.onStatus fid ∨ x.onAnchor fid)
          (a1.next (.store (.markPrClosed fid start.prNumber now)) (.ok ()))
          (Memory.next _ (.store (.setAnchoredVerdict fid .closed (reason.take 500) none))
            (.ok b)) :=
        keeps_next (fun _ hx => hx) fun _ => not_learns_merging rfl
      have hkeep : ∀ x : Fact, x ∈ _ → x.onStatus fid = false → x.onAnchor fid = false → x ∈ _ :=
        fun x hx hs ha => h3.known x hx (by simp [hs, ha])
      exact ⟨h3.calm hg2.calm, hkeep _ hg2.dispatching rfl rfl, hkeep _ hg2.engaged rfl rfl,
        hkeep _ hg2.alone rfl rfl, hkeep _ hg2.unheld rfl rfl,
        hkeep _ ((h1.trans h2).mem hran) rfl rfl⟩
    · exact hend ((h1.trans h2).trans (grows_error rfl))

theorem conforms_recordEngage {fid : Nat} {finding : Finding} {start : EngageStart}
    {state : JobState} {published : Except Text Published} (h : Engaging a fid start)
    (hmode : Budgeted a fid finding.budgetOverride) :
    Conforms a (recordEngage fid finding start state published) := by
  cases published with
  | error e =>
    have hfail : Settling a (logWriteFailure (.failJob start.job)) :=
      settling_log ⟨fid, h.engaged⟩ rfl rfl
    refine Settling.conformsThen ?_ h.calm fun _ _ h1 hc => conforms_clearOnce hc (hmode.settles h1)
    cases decide (state = .done)
    · exact settling_done _
    · exact hfail
  | ok published =>
    refine (peaceful_engagedMark _ _).andThen h.calm fun _ a1 h1 hc1 => ?_
    refine (peaceful_ask rfl).andThen hc1 fun _ a2 h2 hc2 => ?_
    exact (peaceful_log rfl).andThen hc2 fun _ _ h3 hc =>
      conforms_clearOnce hc (((hmode.grows h1).grows h2).grows h3)

theorem conforms_continueIntoHarvest {fid repoId : Nat} {start : EngageStart} {rr : RunResult}
    (h : Withdrawn a fid start rr) :
    Conforms a (continueIntoHarvest fid repoId start rr.sessionFile) := by
  unfold continueIntoHarvest
  split
  · exact h.calm
  rename_i hsession
  refine follows_bind.2 (follows_sqlResult_iff.2
    (follows_read rfl (fun finding a1 _ h1 hlearn => ?_)
    fun _ _ hg => hg.calm h.calm))
  cases finding with
  | none => exact h1.calm h.calm
  | some finding =>
    refine follows_bind.2 (follows_attempt.2 ?_)
    exact conforms_runHarvest (h1.calm h.calm) (hlearn _ ⟨finding, rfl, Or.inl rfl⟩)
      (fun honce => hlearn _ ⟨finding, rfl, Or.inr (Or.inr ⟨honce, rfl⟩)⟩)
      (.handoff rfl (h1.mem h.dispatching) (h1.mem h.engaged) (h1.mem h.alone)
        (Or.inr ⟨rr, h1.mem h.ran, hsession⟩))

theorem follows_retireIf {fid : Nat} {start : EngageStart} {rr : RunResult} {b : Bool}
    (h : Withdrawn a fid start rr) :
    Follows protocol a (onlyIf b (retireConcluded start.job)) fun _ a' =>
      Withdrawn a' fid start rr := by
  cases b with
  | false => exact h
  | true =>
    have hkept : ∀ {a'}, Keeps (fun x => x = .running start.job ∨ x.onEnd start.job) a a' →
        Withdrawn a' fid start rr := fun hk =>
      ⟨hk.calm h.calm, hk.known _ h.dispatching (by simp [Fact.onEnd]),
        hk.known _ h.engaged (by simp [Fact.onEnd]),
        hk.known _ h.alone (by simp [Fact.onEnd]),
        hk.known _ h.unheld (by simp [Fact.onEnd]), hk.known _ h.ran (by simp [Fact.onEnd])⟩
    exact follows_logWriteFailure.2 ⟨⟨Or.inl rfl, by simp, Or.inl h.unheld⟩,
      fun _ _ => hkept keeps_retire, fun _ => hkept (grows_error rfl).grows⟩

theorem conforms_concludeEngage {fid : Nat} {finding : Finding} {start : EngageStart}
    {rr : RunResult} {resume : Option ResumePlan} (h : Engaging a fid start)
    (hmode : Budgeted a fid finding.budgetOverride) (hwork : Working a start.job resume)
    (hran : Fact.ran start.job rr ∈ a) :
    Conforms a (concludeEngage fid finding start rr resume) := by
  refine follows_bind.2 (follows_recordedState hwork hran fun state a1 h1 hran1 _ => ?_)
  have hg1 := h.keeps h1 fun _ hx => hx
  have hmode1 := hmode.keeps h1 (by simp [Fact.onRecord])
  refine (peaceful_ask rfl).andThen hg1.calm fun withdrawn a2 h2 hc2 => ?_
  have hg2 := hg1.grows h2
  have hmode2 := hmode1.grows h2
  cases withdrawn with
  | some reason =>
    refine follows_bind.2 (follows_clearOnce hmode2 fun a3 h3 => ?_)
    refine follows_bind.2 ((follows_withdrawPr (hg2.grows h3)
      (h3.mem (h2.mem hran1))).mono fun r a4 h4 => ?_)
    cases r with
    | error e => exact h4.calm
    | ok closedOnForge =>
      refine follows_bind.2 ((follows_retireIf h4).mono fun r a5 h5 => ?_)
      cases r with
      | error e => exact h5.calm
      | ok _ =>
        refine Conforms.andThen (conforms_onlyIf h5.calm (conforms_continueIntoHarvest h5))
          fun _ a6 hc6 => ?_
        exact (peaceful_closeWorkspace _).conforms hc6
  | none =>
    refine (peaceful_pushAndReply _ _ _).andThen hc2 fun published a3 h3 hc3 => ?_
    refine (conforms_recordEngage (hg2.grows h3) (hmode2.grows h3)).andThen fun _ a4 hc4 => ?_
    exact (peaceful_closeWorkspace _).conforms hc4

theorem conforms_runEngage {fid : Nat} {finding : Finding} {resume : Option ResumePlan}
    (hcalm : Calm a) (hrow : Fact.row fid finding ∈ a)
    (hmode : Budgeted a fid finding.budgetOverride) (hheld : Fact.held fid .prOpen ∈ a)
    (hresume : Resumes a (.finding .engage) finding.repoId (some fid) resume) :
    Conforms a (runEngage fid finding resume) := by
  refine follows_bind.2 (follows_startEngage hcalm hrow hmode hheld hresume ?_ (fun _ hc => hc)
    fun _ _ hc => hc)
  intro start a1 h1 hmode1 hlaunch
  refine (peaceful_onlyIf (peaceful_tryTree rfl)).andThen h1.calm fun _ a2 h2 hc2 => ?_
  have hlaunch2 := hlaunch.grows h2
  refine follows_bind.2 (follows_tryTree.2 ⟨hlaunch2.allowed, fun rr => ?_, fun e => ?_⟩)
  · exact conforms_concludeEngage ((h1.grows h2).keeps keeps_run fun _ => Fact.onRecord_onRun)
      ((hmode1.grows h2).keeps keeps_run (by simp [Fact.onRun])) hlaunch2.ran
      (Or.inr ⟨rr, rfl, rfl⟩)
  · exact keeps_run.calm hc2

end Hunter
