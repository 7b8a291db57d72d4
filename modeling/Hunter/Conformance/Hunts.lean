import Hunter.Conformance.Scans
set_option autoImplicit false

namespace Hunter
open Effect

variable {a : Memory}

/-- What a hunt reads of its repo's row. -/
structure RepoRead (a : Memory) (repoId : Nat) (repo : Repo) : Prop where
  watermark : Fact.watermark repoId repo.lastHuntSha repo.lastFullHuntAt ∈ a
  asked : ∀ v, repo.fullHuntRequestedAt = some v → Fact.asked repoId v ∈ a

theorem RepoRead.grows {b : Memory} {repoId : Nat} {repo : Repo} (h : RepoRead a repoId repo)
    (hab : Grows a b) : RepoRead b repoId repo :=
  ⟨hab.mem h.watermark, fun v hv => hab.mem (h.asked v hv)⟩

theorem follows_markAttempted {repoId : Nat} {request : Option Int}
    (hasked : ∀ v, request = some v → Fact.asked repoId v ∈ a) :
    Follows protocol a (markAttempted repoId request) fun _ a' => Grows a a' := by
  cases request with
  | none => exact Keeps.refl _ a
  | some v =>
    refine follows_logWriteFailure.2 ⟨hasked v rfl, fun b _ => ?_, fun e => grows_error rfl⟩
    exact keeps_next (fun _ hx => hx) fun _ => not_learns_merging rfl

theorem follows_huntHead {repoId : Nat} {repo : Repo} {resume : Option ResumePlan}
    (hread : RepoRead a repoId repo) :
    Follows protocol a (huntHead repoId repo resume) fun r a' => Grows a a' ∧
      ∀ head, r = .ok head → ∀ plan, resume = some plan → head = plan.pinnedSha := by
  cases resume with
  | some plan => exact ⟨Keeps.refl _ a, fun head h plan' h' => by cases h; cases h'; rfl⟩
  | none =>
    refine follows_bind.2 (follows_ask.2 ⟨trivial, fun r => ?_⟩)
    cases r with
    | ok tip => exact ⟨Keeps.refl _ a, fun _ _ _ => nofun⟩
    | error e =>
      refine follows_bind.2 ((follows_markAttempted hread.asked).mono fun r a1 h1 => ?_)
      cases r <;> exact ⟨h1, nofun⟩

theorem peaceful_rehuntDue (repo : Repo) (resume : Option ResumePlan) :
    Peaceful (rehuntDue repo resume) := by
  unfold rehuntDue
  split
  · trivial
  · split
    · trivial
    · exact quiet_bind (peaceful_ask rfl) fun _ => quiet_bind (peaceful_ask rfl) fun _ => trivial
    · trivial

/-- A watermark that is cleared for a full re-hunt is gone, or as it was. -/
theorem follows_clear {repoId : Nat} {last : Option Text} {full : Option Int}
    (hlast : Fact.watermark repoId last full ∈ a) :
    Follows protocol a (logWriteFailure (.clearLastHuntSha repoId)) fun _ a' =>
      Keeps (fun x => x.onWatermark repoId) a a' ∧
        ∃ last', Fact.watermark repoId last' full ∈ a' := by
  refine follows_logWriteFailure.2 ⟨trivial, fun b _ => ⟨?_, none, ?_⟩, fun e => ⟨?_, last, ?_⟩⟩
  · exact keeps_next (fun _ hx => hx) fun _ => not_learns_merging rfl
  · exact Or.inr ⟨last, full, hlast, rfl⟩
  · exact (grows_error rfl).grows
  · exact (grows_error rfl : Grows a _).mem hlast

theorem follows_huntRange {repoId : Nat} {head : Text} {last : Option Text} {full : Bool} :
    Follows protocol a (huntRange repoId head last full) fun r a' => Grows a a' ∧
      ∀ range, r = .ok range → range.head = head ∧
        match last with
        | some l => range.base = l
        | none =>
          if full then range.base = emptyTree
          else (∃ p g, Fact.offered p (.repo .hunt) g ∈ a ∧ Fact.placed p repoId ∈ a) →
            Fact.rebased repoId range.head range.base ∈ a' := by
  cases last with
  | some l => exact ⟨Keeps.refl _ a, fun range h => by cases h; exact ⟨rfl, rfl⟩⟩
  | none =>
    cases full with
    | true => exact ⟨Keeps.refl _ a, fun range h => by cases h; exact ⟨rfl, rfl⟩⟩
    | false =>
      refine follows_bind.2 (follows_tree.2 ⟨trivial, fun printed => ⟨?_, fun range h => ?_⟩⟩)
      · exact keeps_next (fun _ hx => hx) fun _ => not_learns_merging_tree
      · cases h
        exact ⟨rfl, fun hoffered => Or.inr ⟨hoffered, rfl⟩⟩

theorem conforms_advanceWatermark {repoId job : Nat} {repo : Repo} {range : DiffRange}
    {pinned : Text} (hcalm : Calm a) (hhunting : Fact.hunting job repoId ∈ a)
    (hfinished : Fact.finished job ∈ a) (hreviewed : a.hasReviewed repoId pinned) :
    Conforms a (advanceWatermark repoId job repo range pinned) := by
  have hset : Follows protocol a (logWriteFailure (.setLastHunt repoId pinned)) fun _ a' =>
      Keeps (fun x => x.onWatermark repoId) a a' := by
    refine follows_logWriteFailure.2 ⟨Or.inr hreviewed, fun b _ => ?_, fun e =>
      (grows_error rfl).grows⟩
    exact keeps_next (fun _ hx => hx) fun _ => not_learns_merging rfl
  refine follows_bind.2 (hset.mono fun r a1 h1 => ?_)
  have hc1 := h1.calm hcalm
  have hhunting1 := h1.known _ hhunting (by simp [Fact.onWatermark])
  have hfinished1 := h1.known _ hfinished (by simp [Fact.onWatermark])
  cases r with
  | error e => exact hc1
  | ok _ =>
    have hfull : Follows protocol a1 (onlyIf (range.fullScope || repo.lastFullHuntAt.isNone) do
        let now ← ask .now
        logWriteFailure (.setLastFullHunt repoId now)) fun _ a' =>
          Keeps (fun x => x.onWatermark repoId) a1 a' := by
      generalize (range.fullScope || repo.lastFullHuntAt.isNone) = b
      cases b with
      | false => exact Keeps.refl _ a1
      | true =>
        refine follows_bind.2 (follows_ask.2 ⟨trivial, fun now => ?_⟩)
        refine follows_logWriteFailure.2 ⟨⟨job, hhunting1, hfinished1⟩, fun b _ => ?_, fun e =>
          (grows_error rfl).grows⟩
        exact keeps_next (fun _ hx => hx) fun _ => not_learns_merging rfl
    refine follows_bind.2 (hfull.mono fun r a2 h2 => ?_)
    have hc2 := h2.calm hc1
    cases r with
    | error e => exact hc2
    | ok _ =>
      refine conforms_onlyIf hc2 (conforms_log hc2 ⟨?_, ?_⟩ rfl rfl)
      · exact h2.known _ hhunting1 (by simp [Fact.onWatermark])
      · exact h2.known _ hfinished1 (by simp [Fact.onWatermark])

/-- The findings of a hunt are filed, and a reviewed range moves the watermark. -/
theorem conforms_concludeHunt {repoId job : Nat} {repo : Repo} {range : DiffRange}
    {ws : Workspace} {resume : Option ResumePlan} {state : JobState} (hcalm : Calm a)
    (hhunting : Fact.hunting job repoId ∈ a)
    (hlatest : Fact.latest job repoId (outJob job resume) ∈ a)
    (hpinned : Fact.pinned job ws.pinned ∈ a) (hfinished : state = .done → Fact.finished job ∈ a) :
    Conforms a (concludeHunt repoId job repo range ws resume state) := by
  refine follows_bind.2 ((follows_findingsFile _).mono fun r a1 h1 => ?_)
  have hc1 := h1.1.calm hcalm
  cases r with
  | error e => exact hc1
  | ok file =>
    have houtput := h1.2 file rfl
    have hhunting1 := h1.1.known _ hhunting (by simp [Fact.isOutput])
    have hlatest1 := h1.1.known _ hlatest (by simp [Fact.isOutput])
    have hpinned1 := h1.1.known _ hpinned (by simp [Fact.isOutput])
    have hfinished1 : state = .done → _ :=
      fun h => h1.1.known _ (hfinished h) (by simp [Fact.isOutput])
    dsimp only [onOk]
    split
    · exact conforms_endScan hc1
    · refine follows_bind.2 ((follows_ingest fun _ p hp => ?_).mono fun r a2 h2 => ?_)
      · cases hp
        exact ⟨_, hlatest1⟩
      have hc2 := h2.1.calm hc1
      cases r with
      | error e => exact hc2
      | ok invalid =>
        refine Conforms.andThen ?_ fun _ _ hc3 => conforms_endScan hc3
        by_cases hdone : (state = .done && invalid = 0) = true
        · simp only [Bool.and_eq_true, decide_eq_true_eq] at hdone
          obtain ⟨rfl, rfl⟩ := hdone
          obtain ⟨list, rfl, hvalid⟩ := h2.2 rfl
          have hkeep : ∀ {x}, x ∈ a1 → x.onFiling = false → x ∈ a2 :=
            fun hx hno => h2.1.known _ hx (by simp [hno])
          have hhunting2 := hkeep hhunting1 rfl
          have hfinished2 := hkeep (hfinished1 rfl) rfl
          exact conforms_advanceWatermark hc2 hhunting2 hfinished2
            ⟨job, _, list, hhunting2, hfinished2, hkeep hpinned1 rfl, hkeep hlatest1 rfl,
              hkeep houtput rfl, hvalid⟩
        · rw [Bool.not_eq_true] at hdone
          rw [hdone]
          exact hc2

/-- What is known of a hunt once its worker was told what to do. -/
structure Hunting (a : Memory) (repoId job : Nat) (range : DiffRange) (ws : Workspace)
    (resume : Option ResumePlan) : Prop where
  calm : Calm a
  launching : Launching a job resume
  hunting : Fact.hunting job repoId ∈ a
  latest : Fact.latest job repoId (outJob job resume) ∈ a
  pinned : Fact.pinned job ws.pinned ∈ a
  scope : Fact.scoped job range ∈ a ∨ a.resumesScope job range

theorem Memory.resumesScope.keeps {b : Memory} {p : Nat} {range : DiffRange}
    (h : a.resumesScope p range) (hab : ∀ x ∈ a, x.onRecord = false → x ∈ b) :
    b.resumesScope p range := by
  obtain ⟨r, last, full, marked, hhunting, hlast, hmarked, hscope⟩ := h
  refine ⟨r, last, full, marked, hab _ hhunting rfl, hab _ hlast rfl, hab _ hmarked rfl, ?_⟩
  cases last with
  | some l => exact hscope
  | none =>
    dsimp only at hscope ⊢
    split
    · rename_i hfull
      rwa [if_pos hfull] at hscope
    · rename_i hfull
      rw [if_neg hfull] at hscope
      exact hab _ hscope rfl

theorem conforms_workedHunt {repoId job : Nat} {repo : Repo} {range : DiffRange}
    {ws : Workspace} {resume : Option ResumePlan} (h : Hunting a repoId job range ws resume) :
    Conforms a (do
      let rr ← tryTree (.runWorker job ws.originId (resumeSession resume))
      let state ← recordedState job rr resume
      ask (.huntSummary job state range)
      concludeHunt repoId job repo range ws resume state
      pure (some state)) := by
  refine follows_bind.2 (follows_tryTree.2 ⟨h.launching.allowed, fun rr => ?_, fun e =>
    keeps_run.calm h.calm⟩)
  refine follows_bind.2 (follows_recordedState h.launching.ran (Or.inr ⟨rr, rfl, rfl⟩)
    fun state a2 h2 _ hfinished => ?_)
  have hc2 := h2.calm (keeps_run.calm h.calm)
  have hkeep : ∀ x ∈ a, x.onRecord = false → x ∈ a2 := fun x hx hno =>
    ((keeps_run.weaken fun _ => Fact.onRecord_onRun).trans h2).known x hx (by simp [hno])
  refine follows_bind.2 (follows_ask.2 ⟨?_, fun _ => ?_⟩)
  · exact h.scope.imp (fun hx => hkeep _ hx rfl) fun hx => hx.keeps hkeep
  · exact (conforms_concludeHunt hc2 (hkeep _ h.hunting rfl) (hkeep _ h.latest rfl)
      (hkeep _ h.pinned rfl) hfinished).andThen fun _ _ hc => hc

/-- What a cold hunt's job row starts from. -/
structure ColdHunt (a : Memory) (repoId job : Nat) (repo : Repo) (range : DiffRange) : Prop where
  calm : Calm a
  running : Fact.running job ∈ a
  hunting : Fact.hunting job repoId ∈ a
  latest : Fact.latest job repoId job ∈ a
  fresh : Fact.fresh job none ∈ a
  unrun : Fact.unrun job none ∈ a
  unmarked : Fact.marked job false ∈ a
  asked : ∀ v, repo.fullHuntRequestedAt = some v → Fact.asked repoId v ∈ a
  scope : ∃ last full, Fact.watermark repoId last full ∈ a ∧
    (range.fullScope = false → last = some range.base ∨ last = none)

theorem follows_markHunt {repoId job : Nat} {repo : Repo} {range : DiffRange}
    (h : ColdHunt a repoId job repo range) :
    Follows protocol a (markHunt repoId job repo range) fun _ a' =>
      Keeps (fun x => x.isMarked job) a a' ∧
        (range.fullScope = false → Fact.marked job false ∈ a') := by
  have hmark : Follows protocol a (onlyIf range.fullScope
      (logWriteFailure (.markFullHistory job repo.fullHuntRequestedAt))) fun _ a' =>
        Keeps (fun x => x.isMarked job) a a' ∧
          (range.fullScope = false → Fact.marked job false ∈ a') := by
    cases range.fullScope with
    | false => exact ⟨Keeps.refl _ a, fun _ => h.unmarked⟩
    | true =>
      refine follows_logWriteFailure.2 ⟨⟨repoId, h.hunting, h.fresh, h.asked⟩, fun b _ => ?_,
        fun e => ⟨(grows_error rfl).grows, nofun⟩⟩
      exact ⟨keeps_next (fun _ hx => hx) fun _ => not_learns_merging rfl, nofun⟩
  refine follows_bind.2 (hmark.mono fun r a1 h1 => ?_)
  have hasked : ∀ v, repo.fullHuntRequestedAt = some v → Fact.asked repoId v ∈ a1 :=
    fun v hv => h1.1.known _ (h.asked v hv) (by simp [Fact.isMarked])
  cases r with
  | error e => exact h1
  | ok _ =>
    exact (follows_markAttempted hasked).mono fun _ a2 h2 =>
      ⟨h1.1.trans h2.grows, fun hno => h2.mem (h1.2 hno)⟩

theorem conforms_coldHuntJob {repoId : Nat} {repo : Repo} {range : DiffRange}
    {created : CreatedJob} (h : ColdHunt a repoId created.id repo range) :
    Conforms a (runHuntJob repoId repo range created none) := by
  refine follows_bind.2 ((follows_markHunt h).mono fun r a1 h1 => ?_)
  have hc1 := h1.1.calm h.calm
  have hkeep1 : ∀ x ∈ a, (∀ p, x.isMarked p = false) → x ∈ a1 :=
    fun x hx hno => h1.1.known x hx (by simp [hno])
  have hfresh1 := hkeep1 _ h.fresh fun _ => rfl
  have hrunning1 := hkeep1 _ h.running fun _ => rfl
  have hhunting1 := hkeep1 _ h.hunting fun _ => rfl
  have hlatest1 := hkeep1 _ h.latest fun _ => rfl
  have hunrun1 := hkeep1 _ h.unrun fun _ => rfl
  obtain ⟨last, full, hlast, hscope⟩ := h.scope
  have hlast1 := hkeep1 _ hlast fun _ => rfl
  cases r with
  | error e => exact hc1
  | ok _ =>
    refine follows_bind.2 (follows_openWorkspace hc1 ?_ nofun ?_ ?_ fun _ _ hc => hc)
    · exact fun _ => ⟨hrunning1, none, hfresh1, nofun⟩
    · intro _ sha a2 h2 _ hat hpinned
      have hc2 := h2.calm hc1
      have hkeep2 : ∀ x ∈ a1, x.isTree = false → x ∈ a2 :=
        fun x hx hno => h2.known x hx (by simp [hno])
      have hmay : a2.mayReview created.id range :=
        ⟨repoId, last, full, hkeep2 _ hhunting1 rfl, hkeep2 _ hlast1 rfl, ⟨sha, hat⟩,
          fun hno => ⟨hkeep2 _ (h1.2 hno) rfl, hscope hno⟩⟩
      have hprompt : ∀ r, Grows a2
          (a2.next (.tree (.prompt created.id (.hunt range))) r) :=
        fun r => keeps_next (fun _ hx => hx) fun _ => not_learns_merging_tree
      refine follows_bind.2 (follows_tryTree.2 ⟨hmay, fun _ => ?_, fun e => (hprompt _).calm hc2⟩)
      have h3 := hprompt (.ok ())
      refine conforms_workedHunt {
        calm := h3.calm hc2
        launching := ⟨⟨h3.mem (hkeep2 _ hrunning1 rfl), Or.inr ⟨rfl, Or.inl rfl⟩, nofun⟩,
          h3.mem (hkeep2 _ hunrun1 rfl), nofun⟩
        hunting := h3.mem (hkeep2 _ hhunting1 rfl)
        latest := h3.mem (hkeep2 _ hlatest1 rfl)
        pinned := h3.mem hpinned
        scope := Or.inl (Or.inr ⟨rfl, Or.inr rfl⟩) }
    · exact fun _ why a2 h2 => h2.calm hc1

theorem conforms_resumedHuntJob {repoId : Nat} {repo : Repo} {range : DiffRange}
    {created : CreatedJob} {plan : ResumePlan} (hcalm : Calm a)
    (hlaunch : Launching a created.id (some plan)) (hhunting : Fact.hunting created.id repoId ∈ a)
    (hlatest : Fact.latest created.id repoId plan.originJobId ∈ a)
    (hpinned : Fact.pinned created.id plan.pinnedSha ∈ a)
    (hscope : a.resumesScope created.id range) :
    Conforms a (runHuntJob repoId repo range created (some plan)) := by
  have h : Hunting a repoId created.id range
      { originId := plan.originJobId, pinned := plan.pinnedSha } (some plan) :=
    ⟨hcalm, hlaunch, hhunting, hlatest, hpinned, Or.inr hscope⟩
  exact follows_bind.2 (follows_bind.2 (conforms_workedHunt h))

theorem conforms_startHunt {repoId : Nat} {repo : Repo} {range : DiffRange}
    {resume : Option ResumePlan} (hcalm : Calm a)
    (hresume : Resumes a (.repo .hunt) repoId none resume)
    (hjob : ∀ created b c, Calm c → Grows a b →
      Created b c (.repo .hunt) repoId none (resumePredecessor resume) created.id →
      Conforms c (runHuntJob repoId repo range created resume)) :
    Conforms a (startHunt repoId repo range resume) := by
  refine (peaceful_onlyIf (peaceful_tryAsk rfl)).andThen hcalm fun _ a1 h1 hc1 => ?_
  refine (peaceful_tryAsk rfl).andThen hc1 fun decision a2 h2 hc2 => ?_
  cases decision with
  | denied => exact hc2
  | approved =>
    have h12 := h1.trans h2
    refine follows_bind.2 (follows_createJob (hresume.grows h12).mayCreateRepo ?_ ?_ ?_)
    · exact fun created a3 h3 => hjob created a2 a3 (h3.keeps.calm hc2) h12 h3
    · exact fun a3 h3 => h3.calm hc2
    · exact fun _ a3 h3 => h3.calm hc2

theorem conforms_startColdHunt {repoId : Nat} {repo : Repo} {range : DiffRange}
    {last : Option Text} {full : Option Int} (hcalm : Calm a)
    (hresume : Resumes a (.repo .hunt) repoId none none)
    (hasked : ∀ v, repo.fullHuntRequestedAt = some v → Fact.asked repoId v ∈ a)
    (hlast : Fact.watermark repoId last full ∈ a)
    (hscope : range.fullScope = false → last = some range.base ∨ last = none) :
    Conforms a (startHunt repoId repo range none) := by
  refine conforms_startHunt hcalm hresume fun created b c hc hab h => ?_
  have hkeep : ∀ x ∈ a, x.onCreate = false → x ∈ c :=
    fun x hx hno => h.keeps.known x (hab.mem hx) (by simp [hno])
  exact conforms_coldHuntJob {
    calm := hc
    running := h.running
    hunting := h.hunting rfl
    latest := h.latest _ rfl
    fresh := h.fresh rfl
    unrun := h.unrun
    unmarked := h.unmarked rfl
    asked := fun v hv => hkeep _ (hasked v hv) rfl
    scope := ⟨last, full, hkeep _ hlast rfl, hscope⟩ }

theorem conforms_startResumedHunt {repoId : Nat} {repo : Repo} {range : DiffRange}
    {plan : ResumePlan} {last : Option Text} {full : Option Int} {marked : Bool}
    (hcalm : Calm a) (hresume : Resumes a (.repo .hunt) repoId none (some plan))
    (horigin : KnowsOrigin a (some plan))
    (hpinned : Fact.pinned plan.predecessorId plan.pinnedSha ∈ a)
    (hscope : match last with
      | some l => range.base = l
      | none =>
        if marked || full.isSome then range.base = emptyTree
        else Fact.rebased repoId range.head range.base ∈ a)
    (hlast : Fact.watermark repoId last full ∈ a)
    (hmarked : Fact.marked plan.predecessorId marked ∈ a) :
    Conforms a (startHunt repoId repo range (some plan)) := by
  refine conforms_startHunt hcalm hresume fun created b c hc hab h => ?_
  have hkeep : ∀ x ∈ a, x.onCreate = false → x ∈ c :=
    fun x hx hno => h.keeps.known x (hab.mem hx) (by simp [hno])
  refine conforms_resumedHuntJob hc
    (h.launching (Or.inr rfl) (hresume.grows hab).session) (h.hunting rfl)
    (h.latest _ (horigin.grows hab).goesTo) (h.pinned _ _ rfl (hab.mem hpinned)) ⟨repoId, last, full, marked, h.hunting rfl,
      hkeep _ hlast rfl, h.marked _ _ rfl (hab.mem hmarked), ?_⟩
  cases last with
  | some l => exact hscope
  | none =>
    dsimp only at hscope ⊢
    split
    · rename_i hfull
      rwa [if_pos hfull] at hscope
    · rename_i hfull
      rw [if_neg hfull] at hscope
      exact hkeep _ hscope rfl

theorem conforms_coldHuntSince {repoId : Nat} {repo : Repo} {head : Text}
    {last current : Option Text} {full : Bool} {lastFull : Option Int} (hcalm : Calm a)
    (hresume : Resumes a (.repo .hunt) repoId none none)
    (hasked : ∀ v, repo.fullHuntRequestedAt = some v → Fact.asked repoId v ∈ a)
    (hcurrent : Fact.watermark repoId current lastFull ∈ a)
    (hlast : current = last ∨ last = none ∧ full = true) :
    Conforms a (huntSince repoId repo head last full none) := by
  unfold huntSince
  split
  · rename_i hskip
    have hhead : last = some head := by simpa using hskip
    rcases hlast with rfl | ⟨hnone, -⟩
    · rw [hhead] at hcurrent
      refine follows_bind.2 (follows_sql.2 ⟨Or.inl ⟨_, hcurrent⟩, fun b _ => ?_, fun e => ?_⟩)
      · exact (settles_next rfl rfl).calm hcalm
      · exact (settles_next rfl rfl).calm hcalm
    · rw [hnone] at hhead
      cases hhead
  · refine follows_bind.2 (follows_huntRange.mono fun r a1 h1 => ?_)
    cases r with
    | error e => exact h1.1.calm hcalm
    | ok range =>
      have hscope := (h1.2 range rfl).2
      refine conforms_startColdHunt (h1.1.calm hcalm) (hresume.grows h1.1)
        (fun v hv => h1.1.mem (hasked v hv)) (h1.1.mem hcurrent) fun hno => ?_
      have hbase : range.base ≠ emptyTree := fun hbase => by
        rw [DiffRange.fullScope_of_base hbase] at hno
        cases hno
      cases last with
      | some l =>
        rcases hlast with rfl | ⟨h, -⟩
        · exact Or.inl (by rw [hscope])
        · cases h
      | none =>
        cases full with
        | true => exact absurd hscope hbase
        | false => exact Or.inr (hlast.resolve_right fun h => by cases h.2)

theorem conforms_runColdHunt {repoId : Nat} {repo : Repo} (hcalm : Calm a)
    (hresume : Resumes a (.repo .hunt) repoId none none) (hread : RepoRead a repoId repo) :
    Conforms a (runHunt repoId repo none) := by
  refine follows_bind.2 ((follows_huntHead hread).mono fun r a1 h1 => ?_)
  have hc1 := h1.1.calm hcalm
  cases r with
  | error e => exact hc1
  | ok head =>
    refine (peaceful_rehuntDue _ _).andThen hc1 fun due a2 h2 hc2 => ?_
    have h12 := h1.1.trans h2
    have hread2 := hread.grows h12
    have hresume2 := hresume.grows h12
    cases due with
    | false => exact conforms_coldHuntSince hc2 hresume2 hread2.asked hread2.watermark (Or.inl rfl)
    | true =>
      refine follows_bind.2 ((follows_clear hread2.watermark).mono fun r a3 h3 => ?_)
      obtain ⟨hkeeps, current, hcurrent⟩ := h3
      cases r with
      | error e => exact hkeeps.calm hc2
      | ok _ =>
        have hkeep : ∀ x ∈ a2, (∀ r, x.onWatermark r = false) → x ∈ a3 :=
          fun x hx hno => hkeeps.known x hx (by simp [hno])
        have hresume3 : Resumes a3 (.repo .hunt) repoId none none :=
          ⟨hkeep _ hresume2.dispatching fun _ => rfl, hkeep _ hresume2.idle fun _ => rfl, nofun,
            nofun⟩
        exact conforms_coldHuntSince (hkeeps.calm hc2) hresume3
          (fun v hv => hkeep _ (hread2.asked v hv) fun _ => rfl) hcurrent (Or.inr ⟨rfl, rfl⟩)

theorem conforms_runResumedHunt {repoId : Nat} {repo : Repo} {plan : ResumePlan}
    (hcalm : Calm a) (hresume : Resumes a (.repo .hunt) repoId none (some plan))
    (horigin : KnowsOrigin a (some plan))
    (hpinned : Fact.pinned plan.predecessorId plan.pinnedSha ∈ a)
    (hread : RepoRead a repoId repo) : Conforms a (runHunt repoId repo (some plan)) := by
  refine follows_bind.2 ((follows_huntHead hread).mono fun r a1 h1 => ?_)
  have hc1 := h1.1.calm hcalm
  cases r with
  | error e => exact hc1
  | ok head =>
    change Conforms a1 (resumedFull repo (some plan) >>= fun resumed =>
      huntSince repoId repo head repo.lastHuntSha resumed (some plan))
    have hresume1 := hresume.grows h1.1
    obtain ⟨g, hoffered, -, hplaced⟩ := hresume1.continues plan rfl
    refine follows_bind.2 (follows_bind.2 (follows_read rfl (fun marked a2 _ h2 hlearn => ?_)
      fun _ _ h2 => h2.calm hc1))
    refine follows_bind.2 (follows_huntRange.mono fun r a3 h3 => ?_)
    have h13 := h2.trans h3.1
    cases r with
    | error e => exact h13.calm hc1
    | ok range =>
      have hscope := (h3.2 range rfl).2
      refine conforms_startResumedHunt (h13.calm hc1) (hresume1.grows h13)
        (horigin.grows (h1.1.trans h13)) (h13.mem (h1.1.mem hpinned)) ?_ (h13.mem (h1.1.mem hread.watermark))
        (h3.1.mem (hlearn _ ⟨⟨_, g, hoffered⟩, rfl⟩))
      cases hlast : repo.lastHuntSha with
      | some l =>
        rw [hlast] at hscope
        exact hscope
      | none =>
        simp only [hlast, Option.isNone_none, Bool.true_and] at hscope ⊢
        split
        · rename_i hfull
          rwa [if_pos hfull] at hscope
        · rename_i hfull
          rw [if_neg hfull] at hscope
          exact hscope ⟨_, g, h2.mem hoffered, h2.mem hplaced⟩

theorem conforms_runHunt {repoId : Nat} {repo : Repo} {resume : Option ResumePlan}
    (hcalm : Calm a) (hresume : Resumes a (.repo .hunt) repoId none resume)
    (horigin : KnowsOrigin a resume)
    (hpinned : ∀ plan, resume = some plan →
      Fact.pinned plan.predecessorId plan.pinnedSha ∈ a)
    (hread : RepoRead a repoId repo) : Conforms a (runHunt repoId repo resume) := by
  cases resume with
  | none => exact conforms_runColdHunt hcalm hresume hread
  | some plan => exact conforms_runResumedHunt hcalm hresume horigin (hpinned plan rfl) hread

theorem conforms_runRepoJob {kind : RepoJobKind} {repoId : Nat} {resume : Option ResumePlan}
    (hcalm : Calm a) (hresume : Resumes a (.repo kind) repoId none resume)
    (horigin : KnowsOrigin a resume)
    (hpinned : ∀ plan, resume = some plan →
      Fact.pinned plan.predecessorId plan.pinnedSha ∈ a) :
    Conforms a (runRepoJob kind repoId resume) := by
  refine follows_bind.2 (follows_read rfl (fun repo a1 _ h1 hlearn => ?_) fun _ _ h1 =>
    h1.calm hcalm)
  have hc1 := h1.calm hcalm
  have hresume1 := hresume.grows h1
  have horigin1 := horigin.grows h1
  cases repo with
  | none => exact hc1
  | some repo =>
    dsimp only [onOk]
    split
    · refine conforms_runHunt hc1 hresume1 horigin1 (fun plan hplan => h1.mem (hpinned plan hplan)) ?_
      exact ⟨hlearn _ ⟨repo, rfl, Or.inl rfl⟩,
        fun v hv => hlearn _ ⟨repo, rfl, Or.inr ⟨hresume.idle, v, hv, rfl⟩⟩⟩
    · exact conforms_runDepUpdate hc1 hresume1 horigin1
    · rename_i hkind _
      exact conforms_runAnalysisJob hkind hc1 hresume1 horigin1

end Hunter
