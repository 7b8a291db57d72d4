import Hunter.Conformance.Executors
set_option autoImplicit false

namespace Hunter
open Effect

variable {α β : Type} {a : Memory}

theorem follows_releaseClaim {fid : Nat} :
    Follows protocol a (releaseClaim fid) fun _ a' => Keeps (fun x => x.isHeld fid) a a' := by
  refine follows_logWriteFailure.2 ⟨Or.inr ⟨rfl, rfl⟩, fun b _ => ?_, fun e => ?_⟩
  · apply keeps_next
    · rintro x ⟨-, hx | ⟨h, -⟩⟩
      · exact hx
      · cases h
    · exact fun _ => not_learns_merging rfl
  · exact (grows_error rfl).grows

theorem conforms_releaseClaim {fid : Nat} (hcalm : Calm a) : Conforms a (releaseClaim fid) :=
  follows_releaseClaim.mono fun _ _ h => h.calm hcalm

/-- A fix with its tree on the branch, and no other live attempt beside it. -/
structure Holdable (a : Memory) (fid job : Nat) : Prop where
  rooted : Fact.rooted job fid ∈ a
  status : Fact.held fid .fixing ∈ a ∨ Fact.queued fid ∈ a
  free : Fact.sole job ∈ a ∨ ∃ g, Fact.offered job (.finding .fix) g ∈ a

theorem Holdable.grows {b : Memory} {fid job : Nat} (h : Holdable a fid job) (hab : Grows a b) :
    Holdable b fid job :=
  ⟨hab.mem h.rooted, h.status.imp hab.mem hab.mem,
    h.free.imp hab.mem fun ⟨g, hg⟩ => ⟨g, hab.mem hg⟩⟩

theorem settles_of_isHeld {b : Memory} {fid : Nat} (h : Keeps (fun x => x.isHeld fid) a b) :
    Settles a b :=
  h.settles (by simp [Fact.isHeld])

theorem follows_holdBlocked {fid job : Nat} {report : Text} (hhold : Holdable a fid job) :
    Follows protocol a (holdBlocked fid job report) fun r a' =>
      Settles a a' ∧ (r ≠ .ok () → Keeps (fun x => x.isHeld fid) a a') := by
  refine follows_bind.2 (follows_sqlResult.2
    ⟨⟨hhold.rooted, hhold.status, hhold.free⟩, fun b _ => ?_, fun e => ?_⟩)
  · exact ⟨settles_next rfl rfl, fun h => absurd rfl h⟩
  · have h : Grows a (a.next (.store (.blockFixJob fid job report)) (.error e)) := grows_error rfl
    refine follows_bind.2 (follows_releaseClaim.mono fun r a' h' => ?_)
    have hkeeps := h.grows.trans h'
    cases r with
    | ok _ => exact ⟨settles_of_isHeld hkeeps, fun _ => hkeeps⟩
    | error e => exact ⟨settles_of_isHeld hkeeps, fun _ => hkeeps⟩

theorem follows_recordFixFailure {fid job : Nat} {failure detail : Text}
    (hhold : Holdable a fid job) :
    Follows protocol a (recordFixFailure fid job failure detail) fun r a' =>
      Settles a a' ∧ (r ≠ .ok true → Keeps (fun x => x.isHeld fid) a a') := by
  refine Peaceful.bind (quiet_attempt (peaceful_recordFixAttempt _ _)) ?_
    fun _ _ h => ⟨h.grows, fun _ => h.grows⟩
  intro r a1 h1
  cases r with
  | error e => exact ⟨h1.grows, fun _ => h1.grows⟩
  | ok streak =>
    dsimp only
    split
    · exact ⟨h1.grows, fun _ => h1.grows⟩
    · refine follows_bind.2 ((follows_holdBlocked (hhold.grows h1)).mono fun r a2 h2 => ?_)
      have hsettles := h1.grows.trans h2.1
      cases r with
      | ok _ => exact ⟨hsettles, fun h => absurd rfl h⟩
      | error e => exact ⟨hsettles, fun _ => h1.grows.trans (h2.2 (by simp))⟩

/-- What is known of a started fix until its end is recorded. -/
structure Started (a : Memory) (fid : Nat) (finding : Finding) (start : FixStart) : Prop where
  calm : Calm a
  held : Fact.held fid .fixing ∈ a
  row : Fact.row fid finding ∈ a
  rooted : Fact.rooted start.job fid ∈ a
  agrees : Fact.agrees fid start.ws.originId ∈ a
  unheld : Fact.unheld start.job ∈ a
  sole : Fact.sole start.job ∈ a
  branch : start.branch = fixBranch fid finding
  budgeted : Budgeted a fid finding.budgetOverride

theorem Started.keeps {b : Memory} {fid : Nat} {finding : Finding} {start : FixStart}
    {drop : Fact → Prop} (h : Started a fid finding start) (hab : Keeps drop a b)
    (hdrop : ∀ x, drop x → x.onRecord) : Started b fid finding start := by
  have hkeep : ∀ x ∈ a, x.onRecord = false → x ∈ b := by
    intro x hx hr
    refine hab.known x hx fun hd => ?_
    rw [hdrop x hd] at hr
    cases hr
  exact {
    calm := hab.calm h.calm
    held := hkeep _ h.held rfl
    row := hkeep _ h.row rfl
    rooted := hkeep _ h.rooted rfl
    agrees := hkeep _ h.agrees rfl
    unheld := hkeep _ h.unheld rfl
    sole := hkeep _ h.sole rfl
    branch := h.branch
    budgeted := fun hmode => hkeep _ (h.budgeted hmode) rfl }

theorem Started.grows {b : Memory} {fid : Nat} {finding : Finding} {start : FixStart}
    (h : Started a fid finding start) (hab : Grows a b) : Started b fid finding start :=
  h.keeps hab fun _ hx => hx.elim

theorem Started.holdable {fid : Nat} {finding : Finding} {start : FixStart}
    (h : Started a fid finding start) : Holdable a fid start.job :=
  ⟨h.rooted, Or.inl h.held, Or.inl h.sole⟩

theorem settling_recordFixFailure {fid job : Nat} {failure detail : Text}
    (hhold : Holdable a fid job) : Settling a (recordFixFailure fid job failure detail) :=
  (follows_recordFixFailure hhold).mono fun _ _ h => h.1

theorem conforms_holdBlocked {fid job : Nat} {report : Text} (hcalm : Calm a)
    (hhold : Holdable a fid job) : Conforms a (holdBlocked fid job report) :=
  (follows_holdBlocked hhold).mono fun _ _ h => h.1.calm hcalm

theorem conforms_countUnmadeTree {fid job : Nat} {why : Text} (hcalm : Calm a)
    (hhold : Holdable a fid job) : Conforms a (countUnmadeTree fid job why) := by
  refine follows_bind.2 (follows_attempt.2 ?_)
  refine (settling_recordFixFailure hhold).mono fun r a1 h1 => ?_
  refine (conforms_releaseClaim (h1.calm hcalm)).andThen fun _ a2 hc2 => ?_
  cases r <;> exact hc2

/-- The checkpoint a fix resumes, offered below the ceiling, with its tree on the branch. -/
def ResumesFix (a : Memory) (fid repoId : Nat) (resume : Option ResumePlan) : Prop :=
  Resumes a (.finding .fix) repoId (some fid) resume ∧ ∀ plan, resume = some plan →
    Fact.rooted plan.predecessorId fid ∈ a ∧ Fact.agrees fid plan.originJobId ∈ a

theorem ResumesFix.grows {b : Memory} {fid repoId : Nat} {resume : Option ResumePlan}
    (h : ResumesFix a fid repoId resume) (hab : Grows a b) : ResumesFix b fid repoId resume :=
  ⟨h.1.grows hab, fun plan hplan => (h.2 plan hplan).imp hab.mem hab.mem⟩

theorem ResumesFix.holdable {fid repoId : Nat} {plan : ResumePlan}
    (h : ResumesFix a fid repoId (some plan)) (hheld : Fact.held fid .fixing ∈ a) :
    Holdable a fid plan.predecessorId := by
  obtain ⟨g, hoffer, -⟩ := h.1.continues plan rfl
  exact ⟨(h.2 plan rfl).1, Or.inl hheld, Or.inr ⟨g, hoffer⟩⟩

theorem follows_prepareBlockedResume {fid repoId : Nat} {resume : Option ResumePlan}
    {Q : Except Text (Option (Option Text)) → Memory → Prop} (hcalm : Calm a)
    (hheld : Fact.held fid .fixing ∈ a) (hresume : ResumesFix a fid repoId resume)
    (hready : ∀ blocker a', Grows a a' → Q (.ok (some blocker)) a')
    (hnot : ∀ a', Calm a' → Q (.ok none) a') (herr : ∀ e a', Calm a' → Q (.error e) a') :
    Follows protocol a (prepareBlockedResume fid resume) Q := by
  cases resume with
  | none => exact hready none a (Keeps.refl _ _)
  | some plan =>
    refine (peaceful_sqlResult rfl).bind (fun r a1 h1 => ?_) fun e _ h => herr e _ (h.calm hcalm)
    cases r with
    | error e =>
      refine follows_bind.2 ((conforms_releaseClaim (h1.calm hcalm)).mono fun r a2 hc2 => ?_)
      cases r <;> exact herr _ _ hc2
    | ok blocker =>
      cases blocker with
      | none => exact hready none a1 h1
      | some blocker =>
        refine (peaceful_ask rfl).bind (fun r a2 h2 => ?_)
          fun e _ h => herr e _ (h.calm (h1.calm hcalm))
        have h := h1.trans h2
        cases r with
        | ok _ => exact hready (some blocker) a2 h
        | error e =>
          have hhold := (hresume.grows h).holdable (h.mem hheld)
          refine follows_bind.2 ((conforms_holdBlocked (h.calm hcalm) hhold).mono
            fun r a3 hc3 => ?_)
          cases r with
          | ok _ => exact hnot a3 hc3
          | error e => exact herr e a3 hc3

theorem follows_startClaimedFix {fid : Nat} {finding : Finding} {repo : Repo}
    {resume : Option ResumePlan} {Q : Except Text (Option FixStart) → Memory → Prop}
    (hcalm : Calm a) (hheld : Fact.held fid .fixing ∈ a) (hrow : Fact.row fid finding ∈ a)
    (hmode : Budgeted a fid finding.budgetOverride)
    (hresume : ResumesFix a fid finding.repoId resume)
    (hstart : ∀ start a', Started a' fid finding start → Launching a' start.job resume →
      Q (.ok (some start)) a')
    (hnot : ∀ a', Calm a' → Q (.ok none) a') (herr : ∀ e a', Calm a' → Q (.error e) a') :
    Follows protocol a (startClaimedFix fid finding repo resume) Q := by
  have hfail : ∀ {e a'}, Calm a' → Follows protocol a' (do releaseClaim fid; .fail e) Q := by
    intro e a' hc
    refine follows_bind.2 ((conforms_releaseClaim hc).mono fun r a2 hc2 => ?_)
    cases r <;> exact herr _ _ hc2
  refine follows_bind.2 (follows_prepareBlockedResume hcalm hheld hresume ?_ hnot herr)
  intro blocker a1 h1
  have hcalm1 := h1.calm hcalm
  have hresume1 := hresume.grows h1
  have hroot : ∀ p, resumePredecessor resume = some p → Fact.rooted p fid ∈ a1 := by
    intro p hp
    cases resume with
    | none => cases hp
    | some plan =>
      cases hp
      exact (hresume1.2 plan rfl).1
  have hmay := hresume1.1.mayCreate (h1.mem hrow) ⟨h1.mem hheld, hroot⟩
  refine follows_bind.2 (follows_sqlResult_iff.2 (follows_createJob hmay ?_ ?_ ?_))
  · intro created a2 hnew
    have hkeep : ∀ x ∈ a1, x.onCreate = false → x ∈ a2 :=
      fun x hx ho => hnew.keeps.known x hx (by simp [ho])
    have hheld2 := hkeep _ (h1.mem hheld) rfl
    have hrow2 := hkeep _ (h1.mem hrow) rfl
    have hmode2 : Budgeted a2 fid finding.budgetOverride :=
      fun honce => hkeep _ (h1.mem (hmode honce)) rfl
    have hroot2 := hnew.rooted fid rfl hroot
    have hcalm2 := hnew.keeps.calm hcalm1
    have hlaunching := hnew.launching (Or.inl (by simp)) hresume1.1.session
    refine follows_bind.2 (follows_attempt.2 (follows_openWorkspace hcalm2 ?_ ?_ ?_ ?_ ?_))
    · intro hr
      refine ⟨hnew.running, some fid, hnew.fresh (resume_eq_none hr), fun f hf => ?_⟩
      cases hf
      exact ⟨finding, _, hrow2, rfl⟩
    · intro plan hr
      have hagrees := hkeep _ (h1.mem (hresume.2 plan hr).2) rfl
      exact hstart _ _ ⟨hcalm2, hheld2, hrow2, hroot2, hagrees, hnew.unheld, hnew.sole, rfl,
        hmode2⟩ hlaunching
    · intro hr sha a3 h3 hmade _ _
      obtain ⟨hroot3, hagrees⟩ := hmade fid (hnew.fresh (resume_eq_none hr))
      have hkeep3 : ∀ x ∈ a2, x.isTree = false → x ∈ a3 :=
        fun x hx ht => h3.known x hx (by simp [ht])
      refine hstart _ _ ⟨h3.calm hcalm2, hkeep3 _ hheld2 rfl, hkeep3 _ hrow2 rfl, hroot3, hagrees,
        hkeep3 _ hnew.unheld rfl, hkeep3 _ hnew.sole rfl, rfl,
        fun honce => hkeep3 _ (hmode2 honce) rfl⟩ ?_
      exact hlaunching.keeps h3 fun _ => Fact.apart_of_isTree
    · intro _ why a3 h3
      have hhold3 : Holdable a3 fid created.id :=
        ⟨h3.known _ hroot2 (by simp), Or.inl (h3.known _ hheld2 (by simp)),
          Or.inl (h3.known _ hnew.sole (by simp))⟩
      refine follows_bind.2 ((conforms_countUnmadeTree (h3.calm hcalm2) hhold3).mono
        fun r a4 hc4 => ?_)
      cases r with
      | ok _ => exact hnot _ hc4
      | error e => exact herr _ _ hc4
    · exact fun e a3 hc3 => hfail hc3
  · intro a2 h2
    refine follows_bind.2 ((conforms_releaseClaim (h2.calm hcalm1)).mono fun r a3 hc3 => ?_)
    cases r with
    | ok _ => exact hnot _ hc3
    | error e => exact herr _ _ hc3
  · exact fun e a2 h2 => hfail (h2.calm hcalm1)

theorem follows_startFix {fid : Nat} {finding : Finding} {resume : Option ResumePlan}
    {Q : Except Text (Option FixStart) → Memory → Prop} (hcalm : Calm a)
    (hrow : Fact.row fid finding ∈ a) (hmode : Budgeted a fid finding.budgetOverride)
    (hresume : ResumesFix a fid finding.repoId resume)
    (hstart : ∀ start a', Started a' fid finding start → Launching a' start.job resume →
      Q (.ok (some start)) a')
    (hnot : ∀ a', Calm a' → Q (.ok none) a') (herr : ∀ e a', Calm a' → Q (.error e) a') :
    Follows protocol a (startFix fid finding resume) Q := by
  unfold startFix
  split
  · exact hnot a hcalm
  refine (peaceful_liveRepo _).bind (fun repo a1 h1 => ?_) fun e _ h => herr e _ (h.calm hcalm)
  refine (peaceful_tryAsk rfl).bind (fun decision a2 h2 => ?_)
    fun e _ h => herr e _ (h.calm (h1.calm hcalm))
  have h := h1.trans h2
  have hcalm2 := h.calm hcalm
  cases decision with
  | denied => exact hnot a2 hcalm2
  | approved =>
    refine follows_bind.2 (follows_sql.2 ⟨Or.inl ⟨rfl, rfl⟩, fun claimed _ => ?_, fun e => ?_⟩)
    · cases claimed with
      | false =>
        have h3 : Settles a2
            (a2.next (.store (.claimInProgress fid .queued .fixing)) (.ok false)) :=
          settles_next rfl rfl
        exact hnot _ (h3.calm hcalm2)
      | true =>
        have h3 : Keeps (fun x => x.isHeld fid ∨ x = .queued fid) a2
            (a2.next (.store (.claimInProgress fid .queued .fixing)) (.ok true)) :=
          keeps_next (fun _ hx => hx.2.imp_right And.right) fun _ => not_learns_merging rfl
        refine follows_startClaimedFix (h3.calm hcalm2) (Or.inr ⟨rfl, rfl, rfl, rfl⟩)
          (h3.known _ (h.mem hrow) (by simp [Fact.isHeld]))
          ((hmode.grows h).keeps h3 (by simp [Fact.isHeld])) ?_ hstart hnot herr
        refine ⟨(hresume.grows h).1.keeps fun x hx hs => h3.known x hx ?_, fun plan hr => ?_⟩
        · rintro (hheld | rfl)
          · cases x <;> first
            | cases hheld
            | exact absurd hheld (by simpa [Fact.onStatus, Fact.isHeld] using hs fid)
          · simpa [Fact.onStatus] using hs fid
        · obtain ⟨hroot, hagrees⟩ := (hresume.grows h).2 plan hr
          exact ⟨h3.known _ hroot (by simp [Fact.isHeld]),
            h3.known _ hagrees (by simp [Fact.isHeld])⟩
    · exact herr _ _ ((grows_error rfl).calm hcalm2)

theorem follows_shipPr {fid repoId : Nat} {finding : Finding} {start : FixStart}
    {state : JobState} (h : Started a fid finding start) :
    Follows protocol a (shipPr repoId start state) fun _ a' => Grows a a' := by
  have hrefl : Grows a a := Keeps.refl _ a
  refine follows_bind.2 (follows_ask.2 ⟨trivial, fun commits => ?_⟩)
  dsimp only [onOk]
  split
  · exact hrefl
  refine follows_bind.2 (follows_ask.2 ⟨trivial, fun r => ?_⟩)
  cases r with
  | error e => exact hrefl
  | ok _ =>
    refine follows_bind.2 (follows_ask.2 ⟨trivial, fun r => ?_⟩)
    cases r with
    | error e => exact hrefl
    | ok _ =>
      refine follows_bind.2 (follows_ask.2 ⟨⟨fid, finding, h.agrees, h.row, h.branch⟩,
        fun r => ?_⟩)
      cases r <;> exact hrefl

theorem follows_shipOrFail {fid : Nat} {finding : Finding} {start : FixStart}
    {state : JobState} {Q : Except Text FixOutcome → Memory → Prop}
    (h : Started a fid finding start)
    (hq : ∀ outcome a', Started a' fid finding start → Q (.ok outcome) a')
    (herr : ∀ e a', Calm a' → Q (.error e) a') :
    Follows protocol a (concludeFix.shipOrFail finding start state) Q := by
  refine follows_bind.2 ((follows_shipPr h).mono fun r a1 h1 => ?_)
  have hstarted := h.grows h1
  cases r with
  | error e => exact herr _ _ hstarted.calm
  | ok r =>
    cases r with
    | ok url => exact hq _ _ hstarted
    | error failure =>
      dsimp only [onOk]
      split <;> exact hq _ _ hstarted

theorem follows_concludeFix {fid : Nat} {finding : Finding} {start : FixStart}
    {state : JobState} {Q : Except Text FixOutcome → Memory → Prop}
    (h : Started a fid finding start)
    (hq : ∀ outcome a', Started a' fid finding start → Q (.ok outcome) a')
    (herr : ∀ e a', Calm a' → Q (.error e) a') :
    Follows protocol a (concludeFix fid finding start state) Q := by
  refine follows_bind.2 (follows_ask.2 ⟨trivial, fun r => ?_⟩)
  cases r with
  | error e =>
    refine follows_bind.2 ((conforms_releaseClaim h.calm).mono fun r a2 hc2 => ?_)
    cases r <;> exact herr _ _ hc2
  | ok report =>
    rcases report with _ | decline | report
    · dsimp only [onOk]
      split
      · split
        · exact hq _ _ h
        · exact follows_shipOrFail h hq herr
      · exact follows_shipOrFail h hq herr
    · exact hq _ _ h
    · exact hq _ _ h

abbrev Spares (a : Memory) (p : Act α) : Prop :=
  Follows protocol a p fun _ a' =>
    Keeps (fun x => x.isOneShot = false ∧ ∀ id, x ≠ .unheld id) a a'

theorem Peaceful.spares {p : Act α} (hp : Peaceful p) : Spares a p :=
  hp.follows.mono fun _ _ h => h.grows

theorem Spares.andThen {p : Act α} {k : α → Act β} (hp : Spares a p)
    (hk : ∀ x a', Settles a a' → Spares a' (k x)) : Spares a (p >>= k) := by
  refine follows_bind.2 (hp.mono fun r a1 h1 => ?_)
  cases r with
  | ok x => exact (hk x a1 (h1.weaken fun _ h => h.1)).mono fun _ _ h2 => h1.trans h2
  | error e => exact h1

theorem spares_log {c : StoreCall β} (hallow : c.allowed a) (hset : c.setsMerged = false)
    (hover : c.handsOver = false) (hmarks : c.marksMerged = false)
    (hforget : ∀ b id, ¬ c.forgets b (.unheld id)) : Spares a (logWriteFailure c) := by
  refine follows_logWriteFailure.2 ⟨hallow, fun b _ => ?_, fun e => (grows_error hmarks).grows⟩
  refine keeps_next (fun x hx => ?_) fun _ => not_learns_merging hset
  cases x with
  | oneShot f => exact absurd hx (not_forgets_oneShot hover)
  | unheld id => exact absurd hx (hforget b id)
  | _ => exact ⟨rfl, nofun⟩

theorem spares_releaseClaim {fid : Nat} : Spares a (releaseClaim fid) := by
  refine follows_releaseClaim.mono fun _ _ h => h.weaken fun x hx => ?_
  cases x with
  | held => exact ⟨rfl, nofun⟩
  | _ => cases hx

theorem spares_finish {fid : Nat} {mode : Option BudgetOverride} (hmode : Budgeted a fid mode) :
    Spares a (do clearOnce fid mode; releaseClaim fid) :=
  follows_bind.2 (follows_clearOnce hmode fun _ h1 =>
    spares_releaseClaim.mono fun _ _ h2 => h1.grows.trans h2)

theorem conforms_finish {fid : Nat} {mode : Option BudgetOverride} (hcalm : Calm a)
    (hmode : Budgeted a fid mode) : Conforms a (do clearOnce fid mode; releaseClaim fid) :=
  (spares_finish hmode).mono fun _ _ h => h.calm hcalm

theorem spares_recordFixOutcome {fid : Nat} {finding : Finding} {start : FixStart}
    {tail : Text} {outcome : FixOutcome} (h : Started a fid finding start)
    (hconcluded : outcome.concluded = true) :
    Spares a (recordFixOutcome fid finding start tail outcome) := by
  cases outcome with
  | declined decline =>
    refine Spares.andThen (spares_log ?_ ?_ ?_ rfl ?_) fun _ _ _ => ?_
    · refine ⟨anchorsFairly_verdictAnchor ?_, Or.inr (Or.inl h.held)⟩
      rcases decline.cls with _ | cls
      · simp
      · exact cls.status_ne_blocked
    · rfl
    · rfl
    · simp [StoreCall.forgets, Fact.onStatus, Fact.onAnchor]
    · exact (peaceful_log rfl).spares.andThen fun _ _ _ => spares_releaseClaim
  | shipped prUrl =>
    refine Spares.andThen (spares_log h.held rfl rfl rfl ?_) fun _ _ h1 => ?_
    · simp [StoreCall.forgets, Fact.onStatus]
    · exact (peaceful_log rfl).spares.andThen fun _ _ h2 =>
        spares_finish ((h.budgeted.settles h1).settles h2)
  | blocked | suspended | failed => cases hconcluded

theorem conforms_recordFixOutcome {fid : Nat} {finding : Finding} {start : FixStart}
    {tail : Text} {outcome : FixOutcome} (h : Started a fid finding start) :
    Conforms a (recordFixOutcome fid finding start tail outcome) := by
  cases outcome with
  | blocked report fromTree =>
    refine (conforms_holdBlocked h.calm h.holdable).andThen fun _ a1 hc1 => ?_
    refine (peaceful_onlyIf (peaceful_tryAsk rfl)).andThen hc1 fun _ a2 _ hc2 => ?_
    exact (peaceful_sql rfl).conforms hc2
  | declined | shipped =>
    exact (spares_recordFixOutcome h rfl).mono fun _ _ h' => h'.calm h.calm
  | suspended => exact conforms_finish h.calm h.budgeted
  | failed failure =>
    exact (settling_recordFixFailure h.holdable).conformsThen h.calm fun _ _ h1 hc =>
      conforms_finish hc (h.budgeted.settles h1)

theorem conforms_retireConcluded {job : Nat} (hcalm : Calm a) (hunheld : Fact.unheld job ∈ a) :
    Conforms a (retireConcluded job) :=
  conforms_log hcalm ⟨Or.inl rfl, by simp, Or.inl hunheld⟩ rfl rfl

theorem conforms_onlyIf {b : Bool} {p : Act Unit} (hcalm : Calm a) (hp : Conforms a p) :
    Conforms a (onlyIf b p) := by
  cases b
  · exact hcalm
  · exact hp

theorem conforms_concludeStartedFix {fid : Nat} {finding : Finding} {start : FixStart}
    {rr : RunResult} {resume : Option ResumePlan} (h : Started a fid finding start)
    (hwork : Working a start.job resume) (hran : Fact.ran start.job rr ∈ a) :
    Conforms a (concludeStartedFix fid finding start rr resume) := by
  refine follows_bind.2 (follows_recordedState hwork hran fun state a1 h1 _ _ => ?_)
  have hstarted := h.keeps h1 fun _ hx => hx
  refine follows_bind.2 (follows_concludeFix hstarted ?_ fun _ _ hc => hc)
  intro outcome a2 h2
  have hclose : ∀ {a'}, Calm a' → Conforms a' (closeWorkspace start.ws) :=
    fun hc => (peaceful_closeWorkspace _).conforms hc
  cases hconcluded : outcome.concluded with
  | false =>
    refine (conforms_recordFixOutcome h2).andThen fun _ a3 hc3 => ?_
    simp only [hconcluded, Bool.and_false, onlyIf, Bool.false_eq_true, if_false]
    exact hclose hc3
  | true =>
    refine follows_bind.2 ((spares_recordFixOutcome h2 hconcluded).mono fun r a3 h3 => ?_)
    have hc3 := h3.calm h2.calm
    cases r with
    | error e => exact hc3
    | ok _ =>
      have hunheld := h3.known _ h2.unheld (by simp)
      exact Conforms.andThen (conforms_onlyIf hc3 (conforms_retireConcluded hc3 hunheld))
        fun _ _ hc4 => hclose hc4

theorem conforms_runFix {fid : Nat} {finding : Finding} {resume : Option ResumePlan}
    (hcalm : Calm a) (hrow : Fact.row fid finding ∈ a)
    (hmode : Budgeted a fid finding.budgetOverride)
    (hresume : ResumesFix a fid finding.repoId resume) :
    Conforms a (runFix fid finding resume) := by
  have hfail : ∀ {e : Text} {a'}, Calm a' →
      Conforms a' (do releaseClaim fid; .fail e : Act Unit) :=
    fun hc => (conforms_releaseClaim hc).andThen fun _ _ hc => hc
  refine follows_bind.2
    (follows_startFix hcalm hrow hmode hresume ?_ (fun _ hc => hc) fun _ _ hc => hc)
  intro start a1 h1 hlaunch
  refine Peaceful.andThen (peaceful_tree rfl) h1.calm fun r a2 h2 hc2 => ?_
  have hstarted2 := h1.grows h2
  have hlaunch2 := hlaunch.grows h2
  cases r with
  | error e => exact hfail hc2
  | ok _ =>
    refine follows_bind.2 (follows_tree.2 ⟨hlaunch2.allowed, fun r => ?_⟩)
    have hstarted3 : Started (a2.next (.tree (.runWorker start.job start.ws.originId
        (resumeSession resume))) r) fid finding start :=
      hstarted2.keeps keeps_run fun _ => Fact.onRecord_onRun
    cases r with
    | ok rr => exact conforms_concludeStartedFix hstarted3 hlaunch2.ran (Or.inr ⟨rr, rfl, rfl⟩)
    | error e =>
      dsimp only [onOk]
      split
      · exact (conforms_holdBlocked hstarted3.calm hstarted3.holdable).andThen fun _ _ hc => hc
      · exact hfail hstarted3.calm

end Hunter
