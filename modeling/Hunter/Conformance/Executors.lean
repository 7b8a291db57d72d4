import Hunter.Conformance.Quiet
set_option autoImplicit false

namespace Hunter
open Effect

variable {α β : Type} {a : Memory}

/-- `p` keeps to the protocol from `a` on, and leaves no merge half-recorded. -/
abbrev Conforms (a : Memory) (p : Act α) : Prop := Follows protocol a p fun _ a' => Calm a'

theorem Peaceful.bind {p : Act α} {k : α → Act β} {Q : Except Text β → Memory → Prop}
    (hp : Peaceful p) (hk : ∀ x a', Grows a a' → Follows protocol a' (k x) Q)
    (he : ∀ e a', Grows a a' → Q (.error e) a') : Follows protocol a (p >>= k) Q := by
  refine follows_bind.2 (hp.follows.mono fun r a' h => ?_)
  cases r with
  | ok x => exact hk x a' h
  | error e => exact he e a' h

theorem Peaceful.andThen {p : Act α} {k : α → Act β} (hp : Peaceful p) (hcalm : Calm a)
    (hk : ∀ x a', Grows a a' → Calm a' → Conforms a' (k x)) : Conforms a (p >>= k) :=
  hp.bind (fun x a' h => hk x a' h (h.calm hcalm)) fun _ _ h => h.calm hcalm

theorem Tame.andThen {p : Act α} {k : α → Act β} (hp : Tame p) (hcalm : Calm a)
    (hk : ∀ x a', Calm a' → Conforms a' (k x)) : Conforms a (p >>= k) := by
  refine follows_bind.2 (hp.follows.mono fun r a' h => ?_)
  cases r with
  | ok x => exact hk x a' (h.calm hcalm)
  | error e => exact h.calm hcalm

theorem Tame.conforms {p : Act α} (hp : Tame p) (hcalm : Calm a) : Conforms a p :=
  hp.follows.mono fun _ _ h => h.calm hcalm

theorem Peaceful.conforms {p : Act α} (hp : Peaceful p) (hcalm : Calm a) : Conforms a p :=
  hp.tame.conforms hcalm

theorem follows_read {c : StoreCall β} {Q : Except Text β → Memory → Prop}
    (h : c.isQuiet = true)
    (hok : ∀ b a', c.canAnswer (.ok b) → Grows a a' → (∀ x, c.learns a b x → x ∈ a') →
      Q (.ok b) a')
    (herr : ∀ e a', Grows a a' → Q (.error e) a') : Follows protocol a (sql c) Q := by
  refine follows_sql.2
    ⟨(quietCall_store h a).1, fun b hb => hok b _ hb ?_ ?_, fun e => herr e _ ?_⟩
  · exact (quietCall_store h a).2 _ hb
  · exact fun x hx => Or.inr hx
  · exact (quietCall_store h a).2 _ trivial

def Budgeted (a : Memory) (fid : Nat) (mode : Option BudgetOverride) : Prop :=
  mode = some .once → Fact.oneShot fid ∈ a

theorem budgeted_none {fid : Nat} : Budgeted a fid none := nofun

theorem Budgeted.keeps {b : Memory} {fid : Nat} {mode : Option BudgetOverride}
    {drop : Fact → Prop} (h : Budgeted a fid mode) (hab : Keeps drop a b)
    (hdrop : ¬ drop (.oneShot fid)) : Budgeted b fid mode :=
  fun hmode => hab.known _ (h hmode) hdrop

theorem Budgeted.grows {b : Memory} {fid : Nat} {mode : Option BudgetOverride}
    (h : Budgeted a fid mode) (hab : Grows a b) : Budgeted b fid mode :=
  h.keeps hab id

theorem Budgeted.settles {b : Memory} {fid : Nat} {mode : Option BudgetOverride}
    (h : Budgeted a fid mode) (hab : Settles a b) : Budgeted b fid mode :=
  h.keeps hab (by simp [Fact.isOneShot])

/-- A spent override is taken back, or the write that does so is lost. -/
theorem follows_clearOnce {fid : Nat} {mode : Option BudgetOverride}
    {Q : Except Text Unit → Memory → Prop} (h : Budgeted a fid mode)
    (hk : ∀ a', Grows a a' → Q (.ok ()) a') : Follows protocol a (clearOnce fid mode) Q := by
  unfold clearOnce
  split
  · rename_i honce
    refine follows_logWriteFailure.2 ⟨⟨rfl, h honce⟩, fun b _ => hk _ ?_, fun e => hk _ ?_⟩
    · exact keeps_next (fun _ hx => hx) fun _ => not_learns_merging rfl
    · exact grows_error rfl
  · exact hk a (Keeps.refl _ a)

theorem conforms_clearOnce {fid : Nat} {mode : Option BudgetOverride} (hcalm : Calm a)
    (h : Budgeted a fid mode) : Conforms a (clearOnce fid mode) :=
  follows_clearOnce h fun _ h => h.calm hcalm

theorem anchorsFairly_none {status : FindingStatus} (h : status ≠ .blocked) :
    anchorsFairly status none :=
  ⟨nofun, h⟩

theorem anchorsFairly_verdictAnchor {status : FindingStatus} {sha : Text} {parts : AnchorParts}
    (h : status ≠ .blocked) : anchorsFairly status (verdictAnchor status sha parts) := by
  refine ⟨fun hanchor => ?_, h⟩
  unfold verdictAnchor at hanchor
  split at hanchor
  · assumption
  · cases hanchor

theorem ClosureClass.status_ne_blocked (cls : ClosureClass) : cls.status ≠ .blocked := by
  cases cls <;> decide

/-- A running job, and what it goes on with, until its end is recorded. -/
structure Working (a : Memory) (job : Nat) (resume : Option ResumePlan) : Prop where
  running : Fact.running job ∈ a
  briefed : Fact.briefed job ∈ a
  continued : ∀ plan, resume = some plan → Fact.continued plan.predecessorId ∈ a

def Fact.isWork : Fact → Bool
  | running _ | briefed _ | continued _ => true
  | _ => false

theorem Fact.apart_of_onRun {x : Fact} (h : x.onRun = true) : x.isWork = false := by
  cases x <;> first | rfl | cases h

theorem Working.keeps {b : Memory} {job : Nat} {resume : Option ResumePlan} {drop : Fact → Prop}
    (h : Working a job resume) (hab : Keeps drop a b)
    (hdrop : ∀ x, drop x → x.isWork = false) : Working b job resume := by
  have hkeep : ∀ x ∈ a, x.isWork = true → x ∈ b := by
    intro x hx hwork
    refine hab.known x hx fun hd => ?_
    rw [hdrop x hd] at hwork
    cases hwork
  exact ⟨hkeep _ h.running rfl, hkeep _ h.briefed rfl,
    fun plan hplan => hkeep _ (h.continued plan hplan) rfl⟩

theorem Memory.mayResume.keeps {b : Memory} {p : Nat} {session : Text} {drop : Fact → Prop}
    (h : a.mayResume p session) (hab : Keeps drop a b) (hkept : ¬ drop (.kept p session))
    (hran : ∀ rr, ¬ drop (.ran p rr)) : b.mayResume p session :=
  h.imp (fun h => hab.known _ h hkept) fun ⟨rr, h, hrr⟩ => ⟨rr, hab.known _ h (hran rr), hrr⟩

theorem Memory.mayResume.grows {b : Memory} {p : Nat} {session : Text}
    (h : a.mayResume p session) (hab : Grows a b) : b.mayResume p session :=
  h.keeps hab id fun _ => id

/-- A job at work whose worker is about to be run. -/
structure Launching (a : Memory) (job : Nat) (resume : Option ResumePlan) : Prop where
  working : Working a job resume
  unrun : Fact.unrun job (resumePredecessor resume) ∈ a
  session : ∀ plan, resume = some plan → a.mayResume plan.predecessorId plan.sessionFile

def Fact.isLaunch : Fact → Bool
  | unrun _ _ | kept _ _ | ran _ _ => true
  | x => x.isWork

/-- What goes when a tree is made is nothing a worker is run on. -/
theorem Fact.apart_of_isTree {x : Fact} (h : x.isTree = true) : x.isLaunch = false := by
  cases x <;> first | rfl | cases h

namespace Launching
variable {job : Nat} {resume : Option ResumePlan}

theorem keeps {b : Memory} {drop : Fact → Prop} (h : Launching a job resume)
    (hab : Keeps drop a b) (hdrop : ∀ x, drop x → x.isLaunch = false) : Launching b job resume := by
  have hnot : ∀ x, x.isLaunch = true → ¬ drop x := by
    intro x hx hd
    rw [hdrop x hd] at hx
    cases hx
  refine ⟨h.working.keeps hab fun x hd => ?_, hab.known _ h.unrun (hnot _ rfl), fun plan hplan =>
    (h.session plan hplan).keeps hab (hnot _ rfl) fun rr => hnot _ rfl⟩
  have hapart := hdrop x hd
  cases x <;> first | rfl | cases hapart

theorem grows {b : Memory} (h : Launching a job resume) (hab : Grows a b) :
    Launching b job resume :=
  h.keeps hab fun _ hx => hx.elim

theorem allowed {origin : Nat} (h : Launching a job resume) :
    (TreeCall.runWorker job origin (resumeSession resume)).allowed a := by
  refine ⟨h.working.running, h.working.briefed, _, h.unrun, fun file hfile => ?_⟩
  cases resume with
  | none => cases hfile
  | some plan =>
    cases hfile
    exact ⟨plan.predecessorId, rfl, h.session plan rfl⟩

end Launching

theorem keeps_run {job origin : Nat} {session : Option Text} {r : Except Text RunResult} :
    Keeps (fun x => x.onRun) a (a.next (.tree (.runWorker job origin session)) r) :=
  keeps_next (fun _ hx => hx) fun _ => not_learns_merging_tree

theorem Launching.ran {job origin : Nat} {resume : Option ResumePlan}
    {r : Except Text RunResult} (h : Launching a job resume) :
    Working (a.next (.tree (.runWorker job origin (resumeSession resume))) r) job resume :=
  h.working.keeps keeps_run fun _ => Fact.apart_of_onRun

namespace Fact

/-- What a worker's run and the record of its end may undo. -/
def onRecord : Fact → Bool
  | running _ | passed _ | spent _ _ | offered _ _ _ | finished _ | ledger _ _ _
  | unrun _ _ | ran _ _ => true
  | _ => false

theorem onRecord_onSpend {x : Fact} (h : x.onSpend = true) : x.onRecord = true := by
  cases x <;> first | rfl | cases h

theorem onRecord_onEnd {p : Nat} {x : Fact} (h : x.onEnd p = true) :
    x.onRecord = true := by
  cases x with
  | offered | finished => rfl
  | _ => cases h

theorem onRecord_onRun {x : Fact} (h : x.onRun = true) : x.onRecord = true := by
  cases x <;> first | rfl | cases h

end Fact

theorem keeps_retire {id : Nat} {state : JobState} {why : Option Text} :
    Keeps (fun x => x = .running id ∨ x.onEnd id) a
      (a.next (.store (.retireSuspendedJob id state why)) (.ok ())) :=
  keeps_next (fun _ hx => hx) fun _ => not_learns_merging rfl

theorem jobState_resumeUnavailable {rr : RunResult}
    (h : rr.killedReason = some "resume-unavailable".toList) : jobState rr = .failed := by
  have hcap : "resume-unavailable".toList ≠ "cap".toList := by decide
  have hwall : "resume-unavailable".toList ≠ "wallclock".toList := by decide
  unfold jobState
  rw [h]
  dsimp only
  rw [if_neg fun h => hcap h.1, if_neg fun h => hwall h.1, if_pos rfl]

/-- The worker's end is recorded, or the record is lost and the job taken for failed. -/
theorem follows_recordedState {job : Nat} {rr : RunResult} {resume : Option ResumePlan}
    {Q : Except Text JobState → Memory → Prop} (hwork : Working a job resume)
    (hran : Fact.ran job rr ∈ a)
    (hk : ∀ state a', Keeps (fun x => x.onRecord) a a' → Fact.ran job rr ∈ a' →
      (state = .done → Fact.finished job ∈ a') → Q (.ok state) a') :
    Follows protocol a (recordedState job rr resume) Q := by
  have hdone : Keeps (fun x => x.onRecord) a
      (a.next (.store (.completeJob job rr.outcome)) (.ok ())) := by
    apply keeps_next
    · rintro x (rfl | hx)
      · rfl
      · exact Fact.onRecord_onSpend hx
    · exact fun f => not_learns_merging rfl
  have hran1 : Fact.ran job rr ∈ a.next (.store (.completeJob job rr.outcome)) (.ok ()) :=
    Or.inl ⟨hran, by rintro (h | h) <;> cases h⟩
  refine follows_bind.2 (follows_attempt.2 (follows_bind.2
    (follows_sql.2 ⟨⟨hwork.running, rr, hran, rfl⟩, ?_, ?_⟩)))
  · intro b _
    have hfinished : jobState rr = .done →
        Fact.finished job ∈ a.next (.store (.completeJob job rr.outcome)) (.ok ()) :=
      fun h => Or.inr ⟨h, rfl⟩
    cases resume with
    | none => exact hk _ _ hdone hran1 hfinished
    | some plan =>
      refine follows_bind.2 ?_
      by_cases hgone : (!plan.handoff &&
          decide (rr.killedReason = some "resume-unavailable".toList)) = true
      · rw [hgone]
        have hfailed := jobState_resumeUnavailable
          (of_decide_eq_true (Bool.and_eq_true_iff.1 hgone).2)
        have hcontinued := hdone.known _ (hwork.continued plan rfl) (by simp [Fact.onRecord])
        refine follows_sql.2 ⟨⟨Or.inl rfl, by simp, Or.inr hcontinued⟩, ?_, ?_⟩
        · intro b _
          refine hk _ _ (hdone.trans (keeps_retire.weaken ?_))
            (keeps_retire.known _ hran1 (by simp [Fact.onEnd])) fun h => by
              rw [hfailed] at h
              cases h
          rintro x (rfl | hx)
          · rfl
          · exact Fact.onRecord_onEnd hx
        · intro e
          exact hk _ _ (hdone.trans (grows_error rfl).grows) ((grows_error rfl).mem hran1)
            fun h => by cases h
      · rw [Bool.not_eq_true] at hgone
        rw [hgone]
        exact hk _ _ hdone hran1 hfinished
  · intro e
    exact hk _ _ (grows_error rfl).grows ((grows_error rfl).mem hran) fun h => by cases h

theorem Fact.isTree_of_isPinned {p : Nat} {x : Fact} (h : x.isPinned p = true) :
    x.isTree = true := by
  cases x with
  | pinned => rfl
  | _ => cases h

def MayOpen (a : Memory) (created : CreatedJob) (resume : Option ResumePlan)
    (spec : TreeSpec) : Prop :=
  resume = none → Fact.running created.id ∈ a ∧ ∃ of, Fact.fresh created.id of ∈ a ∧
    ∀ f, of = some f → ∃ finding commit,
      Fact.row f finding ∈ a ∧ spec = .branch (fixBranch f finding) commit

theorem follows_openWorkspace {created : CreatedJob} {resume : Option ResumePlan}
    {spec : TreeSpec} {Q : Except Text (Except Text Workspace) → Memory → Prop} (hcalm : Calm a)
    (hopen : MayOpen a created resume spec)
    (hresume : ∀ plan, resume = some plan →
      Q (.ok (.ok { originId := plan.originJobId, pinned := plan.pinnedSha })) a)
    (hmade : resume = none → ∀ sha a', Keeps (fun x => x.isTree) a a' →
      (∀ f, Fact.fresh created.id (some f) ∈ a →
        Fact.rooted created.id f ∈ a' ∧ Fact.agrees f created.id ∈ a') →
      Fact.treeAt created.id spec sha ∈ a' → Fact.pinned created.id sha ∈ a' →
      Q (.ok (.ok { originId := created.id, pinned := sha })) a')
    (hnot : resume = none → ∀ why a', Keeps (fun x => x = .running created.id) a a' →
      Q (.ok (.error why)) a')
    (herr : ∀ e a', Calm a' → Q (.error e) a') :
    Follows protocol a (openWorkspace created resume spec) Q := by
  cases resume with
  | some plan => exact hresume plan rfl
  | none =>
    obtain ⟨hrun, of, hfresh, hspec⟩ := hopen rfl
    refine (peaceful_releaseSuperseded _).bind ?_ fun e a' h => herr e a' (h.calm hcalm)
    intro _ a1 h1
    refine follows_bind.2 (follows_tree.2 ⟨⟨of, h1.mem hfresh, fun f hf => ?_⟩, fun r => ?_⟩)
    · obtain ⟨finding, commit, hrow, heq⟩ := hspec f hf
      exact ⟨finding, commit, h1.mem hrow, heq⟩
    · cases r with
      | error why =>
        have h2 : Grows a1 (a1.next (.tree (.create created.id spec)) (.error why)) :=
          keeps_next (fun x hx => by cases hx.1) fun f => not_learns_merging_tree
        refine follows_bind.2 (follows_sql.2 ⟨(h1.trans h2).mem hrun, ?_, ?_⟩)
        · intro b _
          refine hnot rfl _ _ ((h1.trans h2).grows.trans
            (keeps_next ?_ fun f => not_learns_merging rfl))
          rintro x rfl
          rfl
        · intro e
          exact herr _ _ ((grows_error rfl).calm ((h1.trans h2).calm hcalm))
      | ok sha =>
        have h2 : Keeps (fun x => x.isTree) a1
            (a1.next (.tree (.create created.id spec)) (.ok sha)) :=
          keeps_next (fun x hx => hx.2) fun f => not_learns_merging_tree
        have hbranch : ∀ f, Fact.fresh created.id (some f) ∈ a →
            Fact.rooted created.id f ∈ a1.next (.tree (.create created.id spec)) (.ok sha) ∧
              Fact.agrees f created.id ∈ a1.next (.tree (.create created.id spec)) (.ok sha) :=
          fun f hf => ⟨Or.inr ⟨sha, rfl, Or.inr ⟨f, h1.mem hf, Or.inl rfl⟩⟩,
            Or.inr ⟨sha, rfl, Or.inr ⟨f, h1.mem hf, Or.inr rfl⟩⟩⟩
        have hat : Fact.treeAt created.id spec sha ∈
            a1.next (.tree (.create created.id spec)) (.ok sha) := Or.inr ⟨sha, rfl, Or.inl rfl⟩
        refine follows_bind.2 (follows_sql.2 ⟨⟨spec, hat⟩, fun b _ => ?_, fun e =>
          herr e _ ((grows_error rfl).calm (h2.calm (h1.calm hcalm)))⟩)
        have h4 : Keeps (fun x => x.isPinned created.id)
            (a1.next (.tree (.create created.id spec)) (.ok sha))
            ((a1.next (.tree (.create created.id spec)) (.ok sha)).next
              (.store (.setPinnedSha created.id sha)) (.ok b)) :=
          keeps_next (fun _ hx => hx) fun _ => not_learns_merging rfl
        have h5 := (h1.grows.trans h2).trans (h4.weaken fun x => Fact.isTree_of_isPinned)
        refine hmade rfl _ _ h5 (fun f hf => ?_) (h4.known _ hat (by simp [Fact.isPinned]))
          (Or.inr rfl)
        exact ⟨h4.known _ (hbranch f hf).1 (by simp [Fact.isPinned]),
          h4.known _ (hbranch f hf).2 (by simp [Fact.isPinned])⟩

theorem conforms_openedJob {created : CreatedJob} {resume : Option ResumePlan}
    {spec : TreeSpec} {k : Except Text Workspace → Act β} (hcalm : Calm a)
    (hlaunch : Launching a created.id resume)
    (hfresh : resume = none → Fact.fresh created.id none ∈ a)
    (hk : ∀ ws a', Keeps (fun x => x.isTree) a a' → Calm a' → Launching a' created.id resume →
      Conforms a' (k (.ok ws)))
    (hnot : ∀ why a', Keeps (fun x => x = .running created.id) a a' → Calm a' →
      Conforms a' (k (.error why))) :
    Conforms a (openWorkspace created resume spec >>= k) := by
  refine follows_bind.2 (follows_openWorkspace hcalm ?_ ?_ ?_ ?_ ?_)
  · exact fun h => ⟨hlaunch.working.running, none, hfresh h, fun f hf => by cases hf⟩
  · exact fun plan _ => hk _ _ (Keeps.refl _ _) hcalm hlaunch
  · refine fun _ sha a' h _ _ _ => hk _ _ h (h.calm hcalm) (hlaunch.keeps h fun _ =>
      Fact.apart_of_isTree)
  · exact fun _ why a' h => hnot _ _ h (h.calm hcalm)
  · exact fun _ _ hc => hc

structure Created (a b : Memory) (kind : JobKind) (repoId : Nat)
    (findingId resumedFrom : Option Nat) (id : Nat) : Prop where
  keeps : Keeps (fun x => x.onCreate) a b
  running : Fact.running id ∈ b
  unheld : Fact.unheld id ∈ b
  sole : Fact.sole id ∈ b
  runningIn : ∀ jobs, Fact.runningIn jobs ∈ a → Fact.runningIn (id :: jobs) ∈ b
  engaged : ∀ f, kind = .finding .engage → findingId = some f → Fact.engaged id f ∈ b
  continued : ∀ p, resumedFrom = some p → Fact.continued p ∈ b
  fresh : resumedFrom = none → Fact.fresh id (fixOf kind findingId) ∈ b
  rooted : ∀ f, fixOf kind findingId = some f →
    (∀ p, resumedFrom = some p → Fact.rooted p f ∈ a) → Fact.rooted id f ∈ b
  briefed : kind ≠ .repo .hunt ∨ resumedFrom.isSome → Fact.briefed id ∈ b
  latest : ∀ out, a.goesTo id resumedFrom out → Fact.latest id repoId out ∈ b
  hunting : kind = .repo .hunt → Fact.hunting id repoId ∈ b
  unmarked : resumedFrom = none → Fact.marked id false ∈ b
  unrun : Fact.unrun id resumedFrom ∈ b
  pinned : ∀ p sha, resumedFrom = some p → Fact.pinned p sha ∈ a → Fact.pinned id sha ∈ b
  marked : ∀ p full, resumedFrom = some p → Fact.marked p full ∈ a → Fact.marked id full ∈ b

theorem created_next {kind : JobKind} {repoId : Nat} {findingId resumedFrom : Option Nat}
    {state : JobState} {created : CreatedJob} :
    Created a (a.next (.store (.createJob kind repoId findingId state resumedFrom))
      (.ok (some created))) kind repoId findingId resumedFrom created.id where
  keeps := keeps_next (fun _ hx => hx.2) fun _ => not_learns_merging rfl
  running := Or.inr ⟨created, rfl, Or.inl rfl⟩
  unheld := Or.inr ⟨created, rfl, Or.inr (Or.inl rfl)⟩
  sole := Or.inr ⟨created, rfl, Or.inr (Or.inr (Or.inl rfl))⟩
  runningIn jobs h := Or.inr ⟨created, rfl, by simp [h]⟩
  engaged f hkind hf := Or.inr ⟨created, rfl, by simp [hkind, hf]⟩
  continued p h := Or.inr ⟨created, rfl, by simp [h]⟩
  fresh h := Or.inr ⟨created, rfl, by simp [h]⟩
  rooted f hf hp := Or.inr ⟨created, rfl, by simpa [hf] using hp⟩
  briefed h := Or.inr ⟨created, rfl, by simp [h]⟩
  latest out h := Or.inr ⟨created, rfl, by simp [h]⟩
  hunting h := Or.inr ⟨created, rfl, by simp [h]⟩
  unmarked h := Or.inr ⟨created, rfl, by simp [h]⟩
  unrun := Or.inr ⟨created, rfl, by simp⟩
  pinned p sha hp h := Or.inr ⟨created, rfl, by simp [hp, h]⟩
  marked p full hp h := Or.inr ⟨created, rfl, by simp [hp, h]⟩

theorem Created.working {b : Memory} {kind : JobKind} {repoId id : Nat} {findingId : Option Nat}
    {resume : Option ResumePlan}
    (h : Created a b kind repoId findingId (resumePredecessor resume) id)
    (hkind : kind ≠ .repo .hunt ∨ resume.isSome) : Working b id resume :=
  ⟨h.running, h.briefed (hkind.imp_right fun h => by cases resume <;> first | rfl | cases h),
    fun plan hplan => h.continued _ (by rw [hplan]; rfl)⟩

theorem Created.launching {b : Memory} {kind : JobKind} {repoId id : Nat} {findingId : Option Nat}
    {resume : Option ResumePlan}
    (h : Created a b kind repoId findingId (resumePredecessor resume) id)
    (hkind : kind ≠ .repo .hunt ∨ resume.isSome)
    (hsession : ∀ plan, resume = some plan → a.mayResume plan.predecessorId plan.sessionFile) :
    Launching b id resume :=
  ⟨h.working hkind, h.unrun, fun plan hplan =>
    (hsession plan hplan).keeps h.keeps (by simp [Fact.onCreate]) (by simp [Fact.onCreate])⟩

theorem refused_next {kind : JobKind} {repoId : Nat} {findingId resumedFrom : Option Nat}
    {state : JobState} :
    Grows a (a.next (.store (.createJob kind repoId findingId state resumedFrom))
      (.ok none)) :=
  keeps_next (fun _ hx => by cases hx.1) fun _ => not_learns_merging rfl

theorem follows_createJob {kind : JobKind} {repoId : Nat} {findingId resumedFrom : Option Nat}
    {Q : Except Text (Option CreatedJob) → Memory → Prop}
    (hmay : a.MayCreate kind repoId findingId resumedFrom)
    (hcreated : ∀ created a', Created a a' kind repoId findingId resumedFrom created.id →
      Q (.ok (some created)) a')
    (hrefused : ∀ a', Grows a a' → Q (.ok none) a') (herr : ∀ e a', Grows a a' → Q (.error e) a') :
    Follows protocol a (sql (.createJob kind repoId findingId .running resumedFrom)) Q := by
  refine follows_sql.2 ⟨⟨rfl, hmay⟩, fun b _ => ?_, fun e => herr _ _ (grows_error rfl)⟩
  cases b with
  | some created => exact hcreated created _ created_next
  | none => exact hrefused _ refused_next

theorem Memory.mayContinue.keeps {b : Memory} {kind : JobKind} {repoId : Nat}
    {findingId : Option Nat} {p : Nat} (h : a.mayContinue kind repoId findingId p)
    (hab : ∀ x ∈ a, (∀ f, x.onStatus f = false) → x ∈ b) :
    b.mayContinue kind repoId findingId p := by
  obtain ⟨g, hoffer, hpassed, hof⟩ := h
  refine ⟨g, hab _ hoffer fun _ => rfl, hab _ hpassed fun _ => rfl, ?_⟩
  cases kind with
  | repo kind => exact hab _ hof fun _ => rfl
  | finding kind => exact hof

/-- The daemon is dispatching, nothing runs, and what is resumed was offered for this very
work, below the ceiling. -/
structure Resumes (a : Memory) (kind : JobKind) (repoId : Nat) (findingId : Option Nat)
    (resume : Option ResumePlan) : Prop where
  dispatching : Fact.dispatching ∈ a
  idle : Fact.runningIn [] ∈ a
  continues : ∀ plan, resume = some plan →
    a.mayContinue kind repoId findingId plan.predecessorId
  session : ∀ plan, resume = some plan → a.mayResume plan.predecessorId plan.sessionFile

theorem Resumes.keeps {b : Memory} {kind : JobKind} {repoId : Nat} {findingId : Option Nat}
    {resume : Option ResumePlan} (h : Resumes a kind repoId findingId resume)
    (hab : ∀ x ∈ a, (∀ f, x.onStatus f = false) → x ∈ b) :
    Resumes b kind repoId findingId resume :=
  ⟨hab _ h.dispatching fun _ => rfl, hab _ h.idle fun _ => rfl,
    fun plan hplan => (h.continues plan hplan).keeps hab, fun plan hplan =>
      (h.session plan hplan).imp (fun h => hab _ h fun _ => rfl)
        fun ⟨rr, h, hrr⟩ => ⟨rr, hab _ h fun _ => rfl, hrr⟩⟩

theorem Resumes.grows {b : Memory} {kind : JobKind} {repoId : Nat} {findingId : Option Nat}
    {resume : Option ResumePlan} (h : Resumes a kind repoId findingId resume) (hab : Grows a b) :
    Resumes b kind repoId findingId resume :=
  h.keeps fun _ hx _ => hab.mem hx

theorem Resumes.predecessor {kind : JobKind} {repoId : Nat} {findingId : Option Nat}
    {resume : Option ResumePlan} (h : Resumes a kind repoId findingId resume) :
    ∀ p, resumePredecessor resume = some p → a.mayContinue kind repoId findingId p := by
  intro p hp
  cases resume with
  | none => cases hp
  | some plan =>
    cases hp
    exact h.continues plan rfl

/-- A job of a finding kind may be created once its finding is read. -/
theorem Resumes.mayCreate {kind : FindingJobKind} {fid : Nat} {finding : Finding}
    {resume : Option ResumePlan} (h : Resumes a (.finding kind) finding.repoId (some fid) resume)
    (hrow : Fact.row fid finding ∈ a) (hwork : a.mayWork fid (resumePredecessor resume) kind) :
    a.MayCreate (.finding kind) finding.repoId (some fid) (resumePredecessor resume) where
  dispatching := h.dispatching
  idle := Or.inl h.idle
  continues p hp := Or.inl (h.predecessor p hp)
  work := ⟨fid, finding, rfl, hrow, rfl, hwork⟩

theorem Resumes.mayCreateRepo {kind : RepoJobKind} {repoId : Nat} {resume : Option ResumePlan}
    (h : Resumes a (.repo kind) repoId none resume) :
    a.MayCreate (.repo kind) repoId none (resumePredecessor resume) where
  dispatching := h.dispatching
  idle := Or.inl h.idle
  continues p hp := Or.inl (h.predecessor p hp)
  work := rfl

theorem resume_eq_none {resume : Option ResumePlan} (h : resume = none) :
    resumePredecessor resume = none := by
  rw [h]
  rfl

theorem follows_handleRecheckFailure {fid : Nat} {failure : Text} {mode : Option BudgetOverride}
    (hcalm : Calm a) (hheld : Fact.held fid .rechecking ∈ a) (hmode : Budgeted a fid mode) :
    Follows protocol a (handleRecheckFailure fid failure mode) fun r a' =>
      Calm a' ∧ (r = .ok false → Grows a a') := by
  refine follows_bind.2 (Follows.mono
    (Q := fun r a' => Settles a a' ∧ (r = .ok false → Grows a a')) ?_ fun r a' h => ?_)
  · refine Peaceful.bind (quiet_attempt (peaceful_recordRecheckAttempt _ _)) ?_
      fun _ _ h => ⟨h.grows, fun _ => h⟩
    intro r a1 h1
    cases r with
    | error e => exact ⟨h1.grows, fun _ => h1⟩
    | ok streak =>
      dsimp only
      split
      · exact ⟨h1.grows, fun _ => h1⟩
      · refine follows_bind.2 (follows_sqlResult.2 ⟨h1.mem hheld, fun b _ => ?_, fun e => ?_⟩)
        · have hnew : Settles a (a1.next (.store (.setFindingStatus fid .new)) (.ok b)) :=
            h1.grows.trans (settles_next rfl rfl)
          refine Peaceful.bind (peaceful_log rfl) ?_ ?_
          · exact fun _ a2 h2 => ⟨hnew.trans h2.grows, fun h => by cases h⟩
          · exact fun _ a2 h2 => ⟨hnew.trans h2.grows, fun h => by cases h⟩
        · have hlost := h1.trans (grows_error (c := .setFindingStatus fid .new) (e := e) rfl)
          exact ⟨hlost.grows, fun _ => hlost⟩
  · cases r with
    | error e => exact ⟨h.1.calm hcalm, fun h => by cases h⟩
    | ok stuck =>
      refine follows_bind.2 (follows_clearOnce (hmode.settles h.1) fun a' h' => ?_)
      exact ⟨h'.calm (h.1.calm hcalm), fun heq => (h.2 heq).trans h'⟩

theorem conforms_handleRecheckFailure {fid : Nat} {failure : Text}
    {mode : Option BudgetOverride} (hcalm : Calm a) (hheld : Fact.held fid .rechecking ∈ a)
    (hmode : Budgeted a fid mode) : Conforms a (handleRecheckFailure fid failure mode) :=
  (follows_handleRecheckFailure hcalm hheld hmode).mono fun _ _ h => h.1

theorem Conforms.andThen {p : Act α} {k : α → Act β} (hp : Conforms a p)
    (hk : ∀ x a', Calm a' → Conforms a' (k x)) : Conforms a (p >>= k) := by
  refine follows_bind.2 (hp.mono fun r a' h => ?_)
  cases r with
  | ok x => exact hk x a' h
  | error e => exact h

/-- `p` keeps to the protocol from `a` on, and undoes nothing about an override. -/
abbrev Settling (a : Memory) (p : Act α) : Prop :=
  Follows protocol a p fun _ a' => Settles a a'

theorem Settling.conforms {p : Act α} (hp : Settling a p) (hcalm : Calm a) : Conforms a p :=
  hp.mono fun _ _ h => h.calm hcalm

theorem settling_done (x : α) : Settling a (.done x) := Keeps.refl _ a

theorem settling_clearOnce {fid : Nat} {mode : Option BudgetOverride}
    (h : Budgeted a fid mode) : Settling a (clearOnce fid mode) :=
  follows_clearOnce h fun _ h => h.grows

theorem Settling.andThen {p : Act α} {k : α → Act β} (hp : Settling a p)
    (hk : ∀ x a', Settles a a' → Settling a' (k x)) : Settling a (p >>= k) := by
  refine follows_bind.2 (hp.mono fun r a1 h1 => ?_)
  cases r with
  | ok x => exact (hk x a1 h1).mono fun _ _ h2 => h1.trans h2
  | error e => exact h1

theorem Settling.conformsThen {p : Act α} {k : α → Act β} (hp : Settling a p) (hcalm : Calm a)
    (hk : ∀ x a', Settles a a' → Calm a' → Conforms a' (k x)) : Conforms a (p >>= k) := by
  refine follows_bind.2 (hp.mono fun r a1 h1 => ?_)
  cases r with
  | ok x => exact hk x a1 h1 (h1.calm hcalm)
  | error e => exact h1.calm hcalm

theorem settling_log {c : StoreCall β} (hallow : c.allowed a) (hset : c.setsMerged = false)
    (hover : c.handsOver = false) : Settling a (logWriteFailure c) :=
  follows_logWriteFailure.2 ⟨hallow, fun _ _ => settles_next hset hover,
    fun _ => settles_next hset hover⟩

theorem conforms_log {c : StoreCall β} (hcalm : Calm a) (hallow : c.allowed a)
    (hset : c.setsMerged = false) (hover : c.handsOver = false) :
    Conforms a (logWriteFailure c) :=
  (settling_log hallow hset hover).conforms hcalm

theorem settling_recordRecheck {fid : Nat} {pinned : Text} {outcome : RecheckOutcome}
    (hheld : Fact.held fid .rechecking ∈ a) :
    Settling a (recordRecheck fid pinned outcome) := by
  have hclear : ∀ {a'}, Settling a' (clearRecheckAttempts fid) := (tame_log rfl).follows
  cases outcome with
  | confirmed fields =>
    refine follows_bind.2 (follows_logWriteFailure.2 ⟨trivial, ?_, ?_⟩)
    · intro b _
      have h : Keeps (fun x => x.onBranch fid) a
          (a.next (.store (.updateFindingAnalysis fid fields)) (.ok b)) :=
        keeps_next (fun _ hx => hx) fun _ => not_learns_merging rfl
      have hheld' := h.known _ hheld (by simp [Fact.onBranch])
      have hnew := settling_log (c := .setFindingStatus fid .new) hheld' rfl rfl
      exact (hnew.andThen fun _ _ _ => hclear).mono fun _ _ h' =>
        (h.settles (by simp [Fact.onBranch])).trans h'
    · intro e
      have h : Grows a (a.next (.store (.updateFindingAnalysis fid fields)) (.error e)) :=
        grows_error rfl
      have hnew := settling_log (c := .setFindingStatus fid .new) (h.mem hheld) rfl rfl
      exact (hnew.andThen fun _ _ _ => hclear).mono fun _ _ h' => h.grows.trans h'
  | stale reason =>
    refine Settling.andThen (settling_log ?_ rfl rfl) fun _ _ _ => hclear
    exact ⟨anchorsFairly_none (by decide), Or.inl hheld⟩
  | invalid reason parts =>
    refine Settling.andThen (settling_log ?_ rfl rfl) fun _ _ _ => hclear
    exact ⟨anchorsFairly_verdictAnchor (by decide), Or.inl hheld⟩
  | unknown raw => exact Keeps.refl _ a

theorem follows_runWorker {job : Nat} {ws : Workspace} {resume : Option ResumePlan}
    {Q : Except Text RunResult → Memory → Prop} (hlaunch : Launching a job resume)
    (hk : ∀ rr a', Keeps (fun x => x.onRun) a a' → Fact.ran job rr ∈ a' → Q (.ok rr) a')
    (herr : ∀ e a', Keeps (fun x => x.onRun) a a' → Q (.error e) a') :
    Follows protocol a (runWorker job ws resume) Q := by
  refine (peaceful_onlyIf (peaceful_tryTree rfl)).bind ?_ fun e a1 h1 => herr e a1 h1.grows
  intro _ a1 h1
  refine follows_tryTree.2 ⟨(hlaunch.grows h1).allowed, fun rr => ?_, fun e => ?_⟩
  · exact hk rr _ (h1.grows.trans keeps_run) (Or.inr ⟨rr, rfl, rfl⟩)
  · exact herr e _ (h1.grows.trans keeps_run)

/-- The worker runs, and its end is recorded: what is known of the finding stays known. -/
theorem conforms_recorded {job : Nat} {ws : Workspace} {resume : Option ResumePlan}
    {k : JobState → Act β} (hcalm : Calm a) (hlaunch : Launching a job resume)
    (hk : ∀ state a', Keeps (fun x => x.onRecord) a a' → Calm a' → Conforms a' (k state)) :
    Conforms a (do
      let rr ← runWorker job ws resume
      let state ← recordedState job rr resume
      k state) := by
  refine follows_bind.2 (follows_runWorker hlaunch ?_ fun _ a1 h1 => h1.calm hcalm)
  intro rr a1 h1 hran
  have hwork1 := hlaunch.working.keeps h1 fun _ => Fact.apart_of_onRun
  refine follows_bind.2 (follows_recordedState hwork1 hran fun state a2 h2 _ _ => ?_)
  exact hk state a2 ((h1.weaken fun _ => Fact.onRecord_onRun).trans h2)
    (h2.calm (h1.calm hcalm))

theorem conforms_concludeRecheck {fid : Nat} {mode : Option BudgetOverride} {ws : Workspace}
    {state : JobState} (hcalm : Calm a) (hheld : Fact.held fid .rechecking ∈ a)
    (hmode : Budgeted a fid mode) : Conforms a (concludeRecheck fid mode ws state) := by
  refine (peaceful_closeWorkspace _).andThen hcalm fun _ a1 h1 hc1 => ?_
  have hmode1 := hmode.grows h1
  split
  · exact conforms_clearOnce hc1 hmode1
  · refine (peaceful_recheckVerdict _ _).andThen hc1 fun r a2 h2 hc2 => ?_
    have hheld2 := h2.mem (h1.mem hheld)
    have hmode2 := hmode1.grows h2
    cases r with
    | error failure =>
      exact (conforms_handleRecheckFailure hc2 hheld2 hmode2).andThen fun _ _ hc => hc
    | ok outcome =>
      exact (settling_recordRecheck hheld2).conformsThen hc2 fun _ _ h3 hc3 =>
        conforms_clearOnce hc3 (hmode2.settles h3)

theorem conforms_runRecheckJob {fid : Nat} {repo : Repo} {mode : Option BudgetOverride}
    {resume : Option ResumePlan} {created : CreatedJob} (hcalm : Calm a)
    (hheld : Fact.held fid .rechecking ∈ a) (hmode : Budgeted a fid mode)
    (hlaunch : Launching a created.id resume)
    (hfresh : resume = none → Fact.fresh created.id none ∈ a) :
    Conforms a (runRecheckJob fid repo mode resume created) := by
  refine conforms_openedJob hcalm hlaunch hfresh ?_ ?_
  · intro ws a1 h1 hc1 hlaunch1
    refine conforms_recorded hc1 hlaunch1 fun state a2 h2 hc2 => ?_
    have hheld1 := h1.known _ hheld (by simp [Fact.isTree])
    have hmode1 := hmode.keeps h1 (by simp [Fact.isTree])
    exact conforms_concludeRecheck hc2 (h2.known _ hheld1 (by simp [Fact.onRecord]))
      (hmode1.keeps h2 (by simp [Fact.onRecord]))
  · intro why a1 h1 hc1
    have hheld1 := h1.known _ hheld (by simp)
    exact (conforms_handleRecheckFailure hc1 hheld1 budgeted_none).andThen fun _ _ hc => hc

theorem conforms_runRecheck {fid : Nat} {finding : Finding} {resume : Option ResumePlan}
    (hcalm : Calm a) (hrow : Fact.row fid finding ∈ a)
    (hmode : Budgeted a fid finding.budgetOverride)
    (hheld : finding.status = .rechecking → Fact.held fid .rechecking ∈ a)
    (hresume : Resumes a (.finding .recheck) finding.repoId (some fid) resume) :
    Conforms a (runRecheck fid finding resume) := by
  unfold runRecheck
  split
  · exact hcalm
  · rename_i hstatus
    have hheld := hheld (not_not.mp hstatus)
    refine (peaceful_liveRepo _).andThen hcalm fun repo a1 h1 hc1 => ?_
    refine (peaceful_onlyIf (peaceful_tryAsk rfl)).andThen hc1 fun _ a2 h2 hc2 => ?_
    refine (peaceful_tryAsk rfl).andThen hc2 fun decision a3 h3 hc3 => ?_
    have h : Grows a a3 := (h1.trans h2).trans h3
    cases decision with
    | denied => exact hc3
    | approved =>
      have hmay := (hresume.grows h).mayCreate (h.mem hrow) trivial
      refine follows_bind.2 (follows_createJob hmay ?_ ?_ ?_)
      · intro created a4 h4
        have hheld4 := h4.keeps.known _ (h.mem hheld) (by simp [Fact.onCreate])
        have hmode4 := (hmode.grows h).keeps h4.keeps (by simp [Fact.onCreate])
        exact conforms_runRecheckJob (h4.keeps.calm hc3) hheld4 hmode4
          (h4.launching (Or.inl (by simp)) (hresume.grows h).session)
          fun hr => h4.fresh (resume_eq_none hr)
      · exact fun a4 h4 => h4.calm hc3
      · exact fun _ a4 h4 => h4.calm hc3

end Hunter
