import Hunter.Conformance.Loop
import Hunter.Effect.Each
import Hunter.Effect.Embed
set_option autoImplicit false

namespace Hunter
open Effect

variable {α β : Type}

/-! What becomes of a worker's result: its job's row first, and its output's tail nowhere but in
the text of a block. And which statuses the daemon's verdicts give. -/

def Call.unworded : {β : Type} → Call β → Call β
  | _, .store (.blockFixJob fid job _) => .store (.blockFixJob fid job [])
  | _, c => c

def RunResult.withTail (rr : RunResult) (tail : Text) : RunResult := { rr with stdoutTail := tail }

def FindingStatus.isClosure : FindingStatus → Bool
  | new | superseded | rejected | wontfix => true
  | _ => false

theorem ClosureClass.isClosure_status (cls : ClosureClass) : cls.status.isClosure = true := by
  cases cls <;> rfl

/-- A verdict of the daemon's gives a classification's status, or that of a pull request closed. -/
def StoreCall.judges : {β : Type} → StoreCall β → Prop
  | _, .setAnchoredVerdict _ status _ _ => status.isClosure = true ∨ status = .closed
  | _, .recordClosedHarvest _ status _ _ _ => status.isClosure = true
  | _, _ => True

/-- After a worker, its job's row is completed, and what follows is the same whatever its output's
tail, but for the text of a block. -/
def RecordsWorker : {ε α β : Type} → Call β → (β → Prog Call ε α) → Prop
  | _, _, _, .tree (.runWorker job _ _), k => ∀ rr,
      (∃ rest, k (.ok rr) = .call (.store (.completeJob job rr.outcome)) rest) ∧
        ∀ tail, (k (.ok rr)).embed Call.unworded = (k (.ok (rr.withTail tail))).embed Call.unworded
  | _, _, _, .store c, _ => c.judges
  | _, _, _, _, _ => True

theorem continued_recordsWorker : Continued RecordsWorker where
  bind {ε α β γ c k f} h := by
    cases c with
    | store => exact h
    | ask => trivial
    | tree c =>
      cases c with
      | runWorker job origin session =>
        intro rr
        obtain ⟨⟨rest, hrest⟩, htail⟩ := h rr
        exact ⟨⟨_, congrArg (fun p => p >>= f) hrest⟩, fun tail =>
          embed_bind_congr (htail tail) fun _ => rfl⟩
      | _ => trivial
  attempt {ε ε' α γ c k} h := by
    cases c with
    | store => exact h
    | ask => trivial
    | tree c =>
      cases c with
      | runWorker job origin session =>
        intro rr
        obtain ⟨⟨rest, hrest⟩, htail⟩ := h rr
        refine ⟨⟨_, congrArg Prog.attempt hrest⟩, fun tail => ?_⟩
        rw [embed_attempt, embed_attempt, htail tail]
      | _ => trivial

abbrev Recording {ε : Type} (p : Prog Call ε α) : Prop := Each RecordsWorker p

theorem recording_bind {p : Act α} {f : α → Act β} (hp : Recording p)
    (hf : ∀ x, Recording (f x)) : Recording (p >>= f) :=
  continued_recordsWorker.each_bind hp hf

theorem recording_attempt {ε : Type} {p : Act α} (hp : Recording p) :
    Recording (p.attempt : Prog Call ε (Except Text α)) :=
  continued_recordsWorker.each_attempt hp

theorem recording_sql {c : StoreCall β} (h : c.judges) : Recording (sql c) :=
  ⟨h, fun b => by cases b <;> trivial⟩

theorem recording_sqlResult {c : StoreCall β} (h : c.judges) : Recording (sqlResult c) :=
  ⟨h, fun _ => trivial⟩

theorem recording_log {c : StoreCall β} (h : c.judges) : Recording (logWriteFailure c) :=
  ⟨h, fun _ => trivial⟩

theorem recording_ask (q : Query β) : Recording (ask q) := ⟨trivial, fun _ => trivial⟩

theorem recording_tryAsk (q : Query (Except Text β)) : Recording (tryAsk q) :=
  ⟨trivial, fun b => by cases b <;> trivial⟩

theorem recording_onlyIf {b : Bool} {p : Act Unit} (h : Recording p) : Recording (onlyIf b p) := by
  cases b
  · trivial
  · exact h

theorem judges_of_quiet {c : StoreCall β} (h : QuietCall protocol Grows (.store c)) : c.judges := by
  cases c with
  | setAnchoredVerdict f =>
    rcases (h ∅).1.2 with hheld | hheld | ⟨-, hheld, -⟩ <;>
      exact absurd hheld (Set.notMem_empty _)
  | recordClosedHarvest f =>
    let empty : Store := { repos := [], findings := [], jobs := [] }
    have hkept := ((h {Fact.harvestable f}).2 (.ok _) ⟨empty, _, rfl⟩).known (.harvestable f) rfl id
    rcases mem_next.1 hkept with ⟨-, hforget⟩ | hlearn
    · exact absurd (Or.inl rfl) hforget
    · exact hlearn.elim
  | _ => trivial

theorem Peaceful.recording {p : Act α} (h : Peaceful p) : Recording p := by
  induction p with
  | done x => trivial
  | fail e => trivial
  | call c k ih =>
    refine ⟨?_, fun b => ih b (h.2 b)⟩
    cases c with
    | store => exact judges_of_quiet h.1
    | ask => trivial
    | tree c =>
      cases c with
      | runWorker job origin session => exact absurd (h.1 ∅).1.1 (Set.notMem_empty _)
      | _ => trivial

theorem recording_worker {job origin : Nat} {session : Option Text} {f : RunResult → Act β}
    (hrecord : ∀ rr, ∃ rest, f rr = .call (.store (.completeJob job rr.outcome)) rest)
    (htail : ∀ rr tail,
      (f rr).embed Call.unworded = (f (rr.withTail tail)).embed Call.unworded)
    (hf : ∀ rr, Recording (f rr)) :
    Recording (tryTree (.runWorker job origin session) >>= f) := by
  refine ⟨fun rr => ⟨hrecord rr, htail rr⟩, fun b => ?_⟩
  cases b with
  | ok rr => exact hf rr
  | error e => trivial

theorem recording_runWorker {job : Nat} {ws : Workspace} {resume : Option ResumePlan}
    {f : RunResult → Act β}
    (hrecord : ∀ rr, ∃ rest, f rr = .call (.store (.completeJob job rr.outcome)) rest)
    (htail : ∀ rr tail,
      (f rr).embed Call.unworded = (f (rr.withTail tail)).embed Call.unworded)
    (hf : ∀ rr, Recording (f rr)) : Recording (runWorker job ws resume >>= f) := by
  rw [runWorker, Prog.bind_assoc]
  refine recording_bind (recording_onlyIf ?_) fun _ => recording_worker hrecord htail hf
  exact (peaceful_tryTree rfl).recording

theorem recording_recordedState (job : Nat) (rr : RunResult) (resume : Option ResumePlan) :
    Recording (recordedState job rr resume) := by
  refine recording_bind (recording_attempt ?_) fun r => by cases r <;> trivial
  refine recording_bind (recording_sql trivial) fun _ => ?_
  cases resume with
  | none => trivial
  | some plan => exact recording_bind (recording_onlyIf (recording_sql trivial)) fun _ => trivial

theorem recording_openWorkspace (created : CreatedJob) (resume : Option ResumePlan)
    (spec : TreeSpec) : Recording (openWorkspace created resume spec) := by
  unfold openWorkspace
  cases resume with
  | some plan => trivial
  | none =>
    refine recording_bind (peaceful_releaseSuperseded _).recording fun _ => ?_
    refine recording_bind ⟨trivial, fun _ => trivial⟩ fun sha => ?_
    cases sha with
    | ok sha => exact recording_bind (recording_sql trivial) fun _ => trivial
    | error why => exact recording_bind (recording_sql trivial) fun _ => trivial

theorem recording_clearOnce (fid : Nat) (mode : Option BudgetOverride) :
    Recording (clearOnce fid mode) := by
  unfold clearOnce
  split
  · exact recording_log trivial
  · trivial

theorem recording_holdBlocked (fid job : Nat) (report : Text) :
    Recording (holdBlocked fid job report) := by
  refine recording_bind (recording_sqlResult trivial) fun r => ?_
  cases r with
  | ok _ => trivial
  | error e => exact recording_bind (recording_log trivial) fun _ => trivial

theorem recording_recordFixFailure (fid job : Nat) (failure detail : Text) :
    Recording (recordFixFailure fid job failure detail) := by
  refine recording_bind (recording_attempt (peaceful_recordFixAttempt _ _).recording) fun r => ?_
  cases r with
  | error e => trivial
  | ok streak =>
    dsimp only
    split
    · trivial
    · exact recording_bind (recording_holdBlocked _ _ _) fun _ => trivial

theorem recording_prepareBlockedResume (fid : Nat) (resume : Option ResumePlan) :
    Recording (prepareBlockedResume fid resume) := by
  cases resume with
  | none => trivial
  | some plan =>
    refine recording_bind (recording_sqlResult trivial) fun r => ?_
    cases r with
    | error e => exact recording_bind (recording_log trivial) fun _ => trivial
    | ok blocker =>
      cases blocker with
      | none => trivial
      | some blocker =>
        refine recording_bind (recording_ask _) fun r => ?_
        cases r with
        | ok _ => trivial
        | error _ => exact recording_bind (recording_holdBlocked _ _ _) fun _ => trivial

theorem recording_countUnmadeTree (fid job : Nat) (why : Text) :
    Recording (countUnmadeTree fid job why) := by
  refine recording_bind (recording_attempt (recording_recordFixFailure _ _ _ _)) fun counted => ?_
  refine recording_bind (recording_log trivial) fun _ => ?_
  cases counted <;> trivial

theorem recording_startClaimedFix (fid : Nat) (finding : Finding) (repo : Repo)
    (resume : Option ResumePlan) : Recording (startClaimedFix fid finding repo resume) := by
  refine recording_bind (recording_prepareBlockedResume _ _) fun prepared => ?_
  cases prepared with
  | none => trivial
  | some previousBlocker =>
    refine recording_bind (recording_sqlResult trivial) fun r => ?_
    cases r with
    | error e => exact recording_bind (recording_log trivial) fun _ => trivial
    | ok created =>
      cases created with
      | none => exact recording_bind (recording_log trivial) fun _ => trivial
      | some created =>
        refine recording_bind (recording_attempt (recording_openWorkspace _ _ _)) fun opened => ?_
        cases opened with
        | error e => exact recording_bind (recording_log trivial) fun _ => trivial
        | ok opened =>
          cases opened with
          | error why => exact recording_bind (recording_countUnmadeTree _ _ _) fun _ => trivial
          | ok ws => trivial

theorem recording_startFix (fid : Nat) (finding : Finding) (resume : Option ResumePlan) :
    Recording (startFix fid finding resume) := by
  unfold startFix
  split
  · trivial
  · refine recording_bind (peaceful_liveRepo _).recording fun repo => ?_
    refine recording_bind (recording_tryAsk _) fun decision => ?_
    cases decision with
    | denied => trivial
    | approved =>
      refine recording_bind (recording_sql trivial) fun claimed => ?_
      cases claimed with
      | false => trivial
      | true => exact recording_startClaimedFix _ _ _ _

theorem recording_shipPr (repoId : Nat) (start : FixStart) (state : JobState) :
    Recording (shipPr repoId start state) := by
  refine recording_bind (recording_ask _) fun commits => ?_
  split
  · trivial
  · refine recording_bind (recording_ask _) fun pushed => ?_
    cases pushed with
    | error e => trivial
    | ok _ =>
      refine recording_bind (recording_ask _) fun owner => ?_
      cases owner with
      | error url => trivial
      | ok _ => exact recording_bind (recording_ask _) fun r => by cases r <;> trivial

theorem recording_shipOrFail (finding : Finding) (start : FixStart) (state : JobState) :
    Recording (concludeFix.shipOrFail finding start state) := by
  refine recording_bind (recording_shipPr _ _ _) fun r => ?_
  cases r with
  | ok url => trivial
  | error failure =>
    dsimp only
    split <;> trivial

theorem recording_concludeFix (fid : Nat) (finding : Finding) (start : FixStart)
    (state : JobState) : Recording (concludeFix fid finding start state) := by
  refine recording_bind (recording_ask _) fun report => ?_
  cases report with
  | error e => exact recording_bind (recording_log trivial) fun _ => trivial
  | ok report =>
    cases report with
    | some report => cases report <;> trivial
    | none =>
      dsimp only
      split
      · split
        · trivial
        · exact recording_shipOrFail _ _ _
      · exact recording_shipOrFail _ _ _

theorem recording_recordFixOutcome (fid : Nat) (finding : Finding) (start : FixStart)
    (tail : Text) (outcome : FixOutcome) :
    Recording (recordFixOutcome fid finding start tail outcome) := by
  have hend : Recording (do clearOnce fid finding.budgetOverride; releaseClaim fid) :=
    recording_bind (recording_clearOnce _ _) fun _ => recording_log trivial
  cases outcome with
  | blocked report fromTree =>
    refine recording_bind (recording_holdBlocked _ _ _) fun _ => ?_
    exact recording_bind (recording_onlyIf (recording_tryAsk _)) fun _ => recording_sql trivial
  | declined decline =>
    have hclosure : ((decline.cls.map ClosureClass.status).getD .new).isClosure = true := by
      cases decline.cls with
      | none => rfl
      | some cls => exact cls.isClosure_status
    refine recording_bind (recording_log (Or.inl hclosure)) fun _ => ?_
    exact recording_bind (recording_log trivial) fun _ => recording_log trivial
  | shipped prUrl =>
    exact recording_bind (recording_log trivial) fun _ =>
      recording_bind (recording_log trivial) fun _ => hend
  | suspended => exact hend
  | failed failure => exact recording_bind (recording_recordFixFailure _ _ _ _) fun _ => hend

theorem recording_concludeStartedFix (fid : Nat) (finding : Finding) (start : FixStart)
    (rr : RunResult) (resume : Option ResumePlan) :
    Recording (concludeStartedFix fid finding start rr resume) := by
  refine recording_bind (recording_recordedState _ _ _) fun state => ?_
  refine recording_bind (recording_concludeFix _ _ _ _) fun outcome => ?_
  refine recording_bind (recording_recordFixOutcome _ _ _ _ _) fun _ => ?_
  exact recording_bind (recording_onlyIf (recording_log trivial)) fun _ =>
    (peaceful_closeWorkspace _).recording

theorem unworded_recordFixFailure (fid job : Nat) (failure detail detail' : Text) :
    (recordFixFailure fid job failure detail).embed Call.unworded =
      (recordFixFailure fid job failure detail').embed Call.unworded := by
  refine embed_bind_congr rfl fun r => ?_
  cases r with
  | error e => rfl
  | ok streak =>
    dsimp only
    split <;> rfl

theorem unworded_recordFixOutcome (fid : Nat) (finding : Finding) (start : FixStart)
    (tail tail' : Text) (outcome : FixOutcome) :
    (recordFixOutcome fid finding start tail outcome).embed Call.unworded =
      (recordFixOutcome fid finding start tail' outcome).embed Call.unworded := by
  cases outcome with
  | failed failure =>
    exact embed_bind_congr (unworded_recordFixFailure _ _ _ _ _) fun _ => rfl
  | _ => rfl

theorem unworded_concludeStartedFix (fid : Nat) (finding : Finding) (start : FixStart)
    (rr : RunResult) (resume : Option ResumePlan) (tail : Text) :
    (concludeStartedFix fid finding start rr resume).embed Call.unworded =
      (concludeStartedFix fid finding start (rr.withTail tail) resume).embed Call.unworded := by
  refine embed_bind_congr rfl fun state => embed_bind_congr rfl fun outcome => ?_
  exact embed_bind_congr (unworded_recordFixOutcome _ _ _ _ _ _) fun _ => rfl

theorem recording_runFix (fid : Nat) (finding : Finding) (resume : Option ResumePlan) :
    Recording (runFix fid finding resume) := by
  refine recording_bind (recording_startFix _ _ _) fun started => ?_
  cases started with
  | none => trivial
  | some start =>
    refine recording_bind (peaceful_tree rfl).recording fun prompted => ?_
    cases prompted with
    | error e => exact recording_bind (recording_log trivial) fun _ => trivial
    | ok _ =>
      refine ⟨fun rr => ⟨⟨_, rfl⟩, unworded_concludeStartedFix _ _ _ _ _⟩, fun b => ?_⟩
      cases b with
      | ok rr => exact recording_concludeStartedFix _ _ _ _ _
      | error e =>
        dsimp only [Prog.bind]
        split
        · exact recording_bind (recording_holdBlocked _ _ _) fun _ => trivial
        · exact recording_bind (recording_log trivial) fun _ => trivial

theorem recording_handleRecheckFailure (fid : Nat) (failure : Text)
    (mode : Option BudgetOverride) : Recording (handleRecheckFailure fid failure mode) := by
  refine recording_bind ?_ fun _ => recording_bind (recording_clearOnce _ _) fun _ => trivial
  refine recording_bind (recording_attempt (peaceful_recordRecheckAttempt _ _).recording)
    fun r => ?_
  cases r with
  | error e => trivial
  | ok streak =>
    dsimp only
    split
    · trivial
    · refine recording_bind (recording_sqlResult trivial) fun r => ?_
      cases r with
      | error e => trivial
      | ok _ => exact recording_bind (recording_log trivial) fun _ => trivial

theorem recording_recordRecheck (fid : Nat) (pinned : Text) (outcome : RecheckOutcome) :
    Recording (recordRecheck fid pinned outcome) := by
  cases outcome with
  | confirmed fields =>
    exact recording_bind (recording_log trivial) fun _ =>
      recording_bind (recording_log trivial) fun _ => recording_log trivial
  | stale reason =>
    exact recording_bind (recording_log (Or.inl rfl)) fun _ => recording_log trivial
  | invalid reason parts =>
    exact recording_bind (recording_log (Or.inl rfl)) fun _ => recording_log trivial
  | unknown raw => trivial

theorem recording_concludeRecheck (fid : Nat) (mode : Option BudgetOverride) (ws : Workspace)
    (state : JobState) : Recording (concludeRecheck fid mode ws state) := by
  refine recording_bind (peaceful_closeWorkspace _).recording fun _ => ?_
  split
  · exact recording_clearOnce _ _
  · refine recording_bind (peaceful_recheckVerdict _ _).recording fun verdict => ?_
    cases verdict with
    | error failure =>
      exact recording_bind (recording_handleRecheckFailure _ _ _) fun _ => trivial
    | ok outcome =>
      exact recording_bind (recording_recordRecheck _ _ _) fun _ => recording_clearOnce _ _

theorem recording_runRecheckJob (fid : Nat) (repo : Repo) (mode : Option BudgetOverride)
    (resume : Option ResumePlan) (created : CreatedJob) :
    Recording (runRecheckJob fid repo mode resume created) := by
  refine recording_bind (recording_openWorkspace _ _ _) fun opened => ?_
  cases opened with
  | error why =>
    exact recording_bind (recording_handleRecheckFailure _ _ _) fun _ => trivial
  | ok ws =>
    refine recording_runWorker (fun _ => ⟨_, rfl⟩) (fun _ _ => rfl) fun rr => ?_
    exact recording_bind (recording_recordedState _ _ _) fun _ => recording_concludeRecheck _ _ _ _

theorem recording_runRecheck (fid : Nat) (finding : Finding) (resume : Option ResumePlan) :
    Recording (runRecheck fid finding resume) := by
  unfold runRecheck
  split
  · trivial
  · refine recording_bind (peaceful_liveRepo _).recording fun repo => ?_
    refine recording_bind (recording_onlyIf (recording_tryAsk _)) fun _ => ?_
    refine recording_bind (recording_tryAsk _) fun decision => ?_
    cases decision with
    | denied => trivial
    | approved =>
      refine recording_bind (recording_sql trivial) fun created => ?_
      cases created with
      | none => trivial
      | some created => exact recording_runRecheckJob _ _ _ _ _

theorem recording_recordHarvestFailure (fid : Nat) (key : Text) :
    Recording (recordHarvestFailure fid key) := by
  refine recording_bind (recording_attempt (peaceful_recordHarvestAttempt _ _).recording)
    fun r => ?_
  cases r with
  | error e => trivial
  | ok streak =>
    dsimp only
    split
    · trivial
    · refine recording_bind (recording_ask _) fun now => ?_
      refine recording_bind (recording_sqlResult trivial) fun r => ?_
      cases r with
      | error e => trivial
      | ok _ => exact recording_bind (recording_log trivial) fun _ => trivial

theorem recording_harvestPrefetchFailed (fid : Nat) (handoff : Bool) (key : Text) :
    Recording (harvestPrefetchFailed fid handoff key) := by
  unfold harvestPrefetchFailed
  split
  · trivial
  · exact recording_bind (recording_recordHarvestFailure _ _) fun _ => trivial

theorem recording_recordReviewed (fid repoId : Nat) (pinned : Text) (resumed : Bool)
    (closure : Option (Except CloseFailure CloseVerdict)) :
    Recording (recordReviewed fid repoId pinned resumed closure) := by
  have hmarked : Recording (do
      let now ← ask .now
      logWriteFailure (.markPrHarvested fid now)
      pure true : Act Bool) :=
    recording_bind (recording_ask _) fun _ =>
      recording_bind (recording_log trivial) fun _ => trivial
  cases closure with
  | none => exact hmarked
  | some closure =>
    cases closure with
    | error why => exact hmarked
    | ok verdict =>
      refine recording_bind ?_ fun judgedAt => recording_bind (recording_ask _) fun now => ?_
      · split
        · exact recording_bind (recording_ask _) fun _ => trivial
        · trivial
      · refine recording_bind (recording_sqlResult verdict.cls.isClosure_status) fun r => ?_
        cases r <;> trivial

theorem recording_changedSince (repoId : Nat) (anchor : VerdictAnchor) (at_ : Text) :
    Recording (changedSince repoId anchor at_) := by
  unfold changedSince
  split
  · trivial
  · exact recording_bind ⟨trivial, fun _ => trivial⟩ fun _ => trivial

theorem recording_reopenIfChanged (repoId fid : Nat) (job : Option Nat) (row : FindingInsert) :
    Recording (reopenIfChanged repoId fid job row) := by
  cases job with
  | none => trivial
  | some job =>
    refine recording_bind (recording_sql trivial) fun finding => ?_
    cases finding with
    | none => trivial
    | some finding =>
      dsimp only
      split
      · trivial
      · refine recording_bind (recording_sql trivial) fun anchor => ?_
        cases anchor with
        | none => trivial
        | some anchor =>
          refine recording_bind (recording_sql trivial) fun sha => ?_
          cases sha with
          | none => trivial
          | some sha =>
            refine recording_bind (recording_sql trivial) fun repo => ?_
            cases repo with
            | none => trivial
            | some repo =>
              refine recording_bind (recording_changedSince _ _ _) fun changed => ?_
              split
              · exact recording_sql trivial
              · trivial

theorem recording_ingestRow (repoId : Nat) (job : Option Nat) (reopen : Bool)
    (type : FindingType) (row : FindingInsert) :
    Recording (ingestRow repoId job reopen type row) := by
  refine recording_bind (recording_sqlResult trivial) fun r => ?_
  cases r with
  | error e => trivial
  | ok filed =>
    obtain ⟨fid, isNew⟩ := filed
    cases isNew with
    | true => trivial
    | false =>
      refine recording_bind ?_ fun reopened => ?_
      · split
        · refine recording_bind (recording_attempt (recording_reopenIfChanged _ _ _ _)) fun r => ?_
          cases r <;> trivial
        · trivial
      · split
        · trivial
        · split
          · exact recording_bind (recording_sqlResult trivial) fun r => by cases r <;> trivial
          · trivial

theorem recording_ingestEntries (repoId : Nat) (job : Option Nat) (reopen : Bool)
    (entries : List ScanEntry) : Recording (ingestEntries repoId job reopen entries) := by
  induction entries with
  | nil => trivial
  | cons entry rest ih =>
    cases entry with
    | none => exact recording_bind ih fun _ => trivial
    | some entry =>
      exact recording_bind (recording_ingestRow _ _ _ _ _) fun _ =>
        recording_bind ih fun _ => trivial

theorem recording_ingest (repoId : Nat) (job : Option Nat) (reopen : Bool)
    (file : FindingsFile) : Recording (ingest repoId job reopen file) := by
  cases file with
  | entries list => exact recording_ingestEntries _ _ _ _
  | _ => trivial

theorem recording_ingestFollowups (repoId origin job : Nat) :
    Recording (ingestFollowups repoId origin job) := by
  refine recording_bind (recording_ask _) fun file => ?_
  cases file with
  | missing => trivial
  | _ => exact recording_bind (recording_ingest _ _ _ _) fun _ => trivial

theorem recording_applyReconfirmations (outJob : Nat) (at_ : Text) :
    Recording (applyReconfirmations outJob at_) := by
  refine recording_bind (recording_ask _) fun confirmed => ?_
  induction confirmed with
  | nil => trivial
  | cons entry rest ih => exact recording_bind (recording_log trivial) fun _ => ih

theorem recording_findingsFile {n : Nat} {f : FindingsFile → Act β}
    (hf : ∀ file, Recording (f file)) : Recording (tree (.findingsFile n) >>= f) :=
  recording_bind ⟨trivial, fun _ => trivial⟩ hf

theorem recording_concludeScan (repoId job : Nat) (ws : Workspace)
    (resume : Option ResumePlan) : Recording (concludeScan repoId job ws resume) := by
  have hend : Recording (do applyReconfirmations (outJob job resume) ws.pinned
                            closeWorkspace ws) :=
    recording_bind (recording_applyReconfirmations _ _) fun _ =>
      (peaceful_closeWorkspace _).recording
  refine recording_findingsFile fun file => ?_
  cases file with
  | missing => exact hend
  | _ => exact recording_bind (recording_ingest _ _ _ _) fun _ => hend

theorem recording_runScanJob (repoId : Nat) (created : CreatedJob) (resume : Option ResumePlan)
    (spec : TreeSpec) : Recording (runScanJob repoId created resume spec) := by
  refine recording_bind (recording_openWorkspace _ _ _) fun opened => ?_
  cases opened with
  | error why => trivial
  | ok ws =>
    refine recording_runWorker (fun _ => ⟨_, rfl⟩) (fun _ _ => rfl) fun rr => ?_
    exact recording_bind (recording_recordedState _ _ _) fun _ =>
      recording_bind (recording_concludeScan _ _ _ _) fun _ => trivial

theorem recording_startScanJob (kind : RepoJobKind) (repoId : Nat) (resume : Option ResumePlan)
    (spec : TreeSpec) : Recording (startScanJob kind repoId resume spec) := by
  refine recording_bind (recording_onlyIf (recording_tryAsk _)) fun _ => ?_
  refine recording_bind (recording_tryAsk _) fun decision => ?_
  cases decision with
  | denied => trivial
  | approved =>
    refine recording_bind (recording_sql trivial) fun created => ?_
    cases created with
    | none => trivial
    | some created => exact recording_runScanJob _ _ _ _

theorem recording_runAnalysisJob (kind : RepoJobKind) (repoId : Nat) (repo : Repo)
    (resume : Option ResumePlan) : Recording (runAnalysisJob kind repoId repo resume) := by
  refine recording_bind (recording_ask _) fun cloned => ?_
  split
  · trivial
  · exact recording_bind (recording_onlyIf (recording_tryAsk _)) fun _ =>
      recording_startScanJob _ _ _ _

theorem recording_markAttempted (repoId : Nat) (request : Option Int) :
    Recording (markAttempted repoId request) := by
  cases request with
  | none => trivial
  | some request => exact recording_log trivial

theorem recording_huntHead (repoId : Nat) (repo : Repo) (resume : Option ResumePlan) :
    Recording (huntHead repoId repo resume) := by
  cases resume with
  | some plan => trivial
  | none =>
    refine recording_bind (recording_ask _) fun r => ?_
    cases r with
    | ok tip => trivial
    | error e => exact recording_bind (recording_markAttempted _ _) fun _ => trivial

theorem recording_resumedFull (repo : Repo) (resume : Option ResumePlan) :
    Recording (resumedFull repo resume) := by
  cases resume with
  | none => trivial
  | some plan => exact recording_bind (recording_sql trivial) fun _ => trivial

theorem recording_huntRange (repoId : Nat) (head : Text) (last : Option Text) (full : Bool) :
    Recording (huntRange repoId head last full) := by
  cases last with
  | some last => trivial
  | none =>
    unfold huntRange
    dsimp only
    split
    · trivial
    · exact recording_bind ⟨trivial, fun _ => trivial⟩ fun _ => trivial

theorem recording_advanceWatermark (repoId job : Nat) (repo : Repo) (range : DiffRange)
    (pinned : Text) : Recording (advanceWatermark repoId job repo range pinned) := by
  refine recording_bind (recording_log trivial) fun _ => ?_
  refine recording_bind (recording_onlyIf ?_) fun _ => recording_onlyIf (recording_log trivial)
  exact recording_bind (recording_ask _) fun _ => recording_log trivial

theorem recording_concludeHunt (repoId job : Nat) (repo : Repo) (range : DiffRange)
    (ws : Workspace) (resume : Option ResumePlan) (state : JobState) :
    Recording (concludeHunt repoId job repo range ws resume state) := by
  have hend : Recording (do applyReconfirmations (outJob job resume) ws.pinned
                            closeWorkspace ws) :=
    recording_bind (recording_applyReconfirmations _ _) fun _ =>
      (peaceful_closeWorkspace _).recording
  refine recording_findingsFile fun file => ?_
  cases file with
  | missing => exact hend
  | _ =>
    exact recording_bind (recording_ingest _ _ _ _) fun _ =>
      recording_bind (recording_onlyIf (recording_advanceWatermark _ _ _ _ _)) fun _ => hend

theorem recording_runHuntJob (repoId : Nat) (repo : Repo) (range : DiffRange)
    (created : CreatedJob) (resume : Option ResumePlan) :
    Recording (runHuntJob repoId repo range created resume) := by
  refine recording_bind (recording_onlyIf ?_) fun _ => ?_
  · exact recording_bind (recording_onlyIf (recording_log trivial)) fun _ =>
      recording_markAttempted _ _
  refine recording_bind (recording_openWorkspace _ _ _) fun opened => ?_
  cases opened with
  | error why => trivial
  | ok ws =>
    refine recording_bind (recording_onlyIf ⟨trivial, fun b => by cases b <;> trivial⟩)
      fun _ => ?_
    refine recording_worker (fun _ => ⟨_, rfl⟩) (fun _ _ => rfl) fun rr => ?_
    refine recording_bind (recording_recordedState _ _ _) fun state => ?_
    exact recording_bind (recording_ask _) fun _ =>
      recording_bind (recording_concludeHunt _ _ _ _ _ _ _) fun _ => trivial

theorem recording_startHunt (repoId : Nat) (repo : Repo) (range : DiffRange)
    (resume : Option ResumePlan) : Recording (startHunt repoId repo range resume) := by
  refine recording_bind (recording_onlyIf (recording_tryAsk _)) fun _ => ?_
  refine recording_bind (recording_tryAsk _) fun decision => ?_
  cases decision with
  | denied => trivial
  | approved =>
    refine recording_bind (recording_sql trivial) fun created => ?_
    cases created with
    | none => trivial
    | some created => exact recording_runHuntJob _ _ _ _ _

theorem recording_huntSince (repoId : Nat) (repo : Repo) (head : Text) (last : Option Text)
    (full : Bool) (resume : Option ResumePlan) :
    Recording (huntSince repoId repo head last full resume) := by
  unfold huntSince
  split
  · exact recording_bind (recording_sql trivial) fun _ => trivial
  · exact recording_bind (recording_huntRange _ _ _ _) fun _ => recording_startHunt _ _ _ _

theorem recording_runHunt (repoId : Nat) (repo : Repo) (resume : Option ResumePlan) :
    Recording (runHunt repoId repo resume) := by
  refine recording_bind (recording_huntHead _ _ _) fun head => ?_
  refine recording_bind (peaceful_rehuntDue _ _).recording fun due => ?_
  refine recording_bind (recording_onlyIf (recording_log trivial)) fun _ => ?_
  exact recording_bind (recording_resumedFull _ _) fun _ => recording_huntSince _ _ _ _ _ _

theorem recording_runRenovateScan (repoId : Nat) (scan : DepScan) :
    Recording (runRenovateScan repoId scan) := by
  refine recording_bind (recording_tryAsk _) fun _ => ?_
  refine recording_bind (recording_ingest _ _ _ _) fun invalid => ?_
  refine recording_bind (recording_onlyIf ?_) fun _ => trivial
  exact recording_bind (recording_sql trivial) fun _ =>
    recording_bind (recording_sql trivial) fun _ => trivial

theorem recording_runDepUpdate (repoId : Nat) (repo : Repo) (resume : Option ResumePlan) :
    Recording (runDepUpdate repoId repo resume) := by
  unfold runDepUpdate
  split
  · exact recording_runAnalysisJob _ _ _ _
  · refine recording_bind (recording_ask _) fun cloned => ?_
    split
    · trivial
    · refine recording_bind (recording_tryAsk _) fun _ => ?_
      refine recording_bind (recording_ask _) fun scan => ?_
      cases scan with
      | none => exact recording_runAnalysisJob _ _ _ _
      | some scan => exact recording_runRenovateScan _ _

theorem recording_runRepoJob (kind : RepoJobKind) (repoId : Nat) (resume : Option ResumePlan) :
    Recording (runRepoJob kind repoId resume) := by
  refine recording_bind (recording_sql trivial) fun repo => ?_
  cases repo with
  | none => trivial
  | some repo =>
    cases kind with
    | hunt => exact recording_runHunt _ _ _
    | depUpdate => exact recording_runDepUpdate _ _ _
    | _ => exact recording_runAnalysisJob _ _ _ _

theorem recording_concludeHarvest (fid : Nat) (finding : Finding) (job : Nat) (ws : Workspace)
    (closed : Bool) (resume : Option ResumePlan) (state : JobState) :
    Recording (concludeHarvest fid finding job ws closed resume state) := by
  refine recording_bind ?_ fun closure => recording_bind ?_ fun gaveUp => ?_
  · split
    · exact recording_bind (recording_ask _) fun _ => trivial
    · trivial
  · split
    · split
      · trivial
      · exact recording_bind (recording_recordHarvestFailure _ _) fun _ => trivial
    · trivial
  · refine recording_bind (recording_onlyIf (recording_ingestFollowups _ _ _)) fun _ => ?_
    refine recording_bind (peaceful_closeWorkspace _).recording fun _ => ?_
    split
    · exact recording_clearOnce _ _
    · split
      · split
        · trivial
        · exact recording_clearOnce _ _
      · refine recording_bind (recording_recordReviewed _ _ _ _ _) fun reviewed => ?_
        exact recording_bind (recording_onlyIf (recording_log trivial)) fun _ =>
          recording_clearOnce _ _

theorem recording_runHarvestJob (fid : Nat) (finding : Finding) (repo : Repo) (closed : Bool)
    (resume : Option ResumePlan) (created : CreatedJob) :
    Recording (runHarvestJob fid finding repo closed resume created) := by
  refine recording_bind (recording_openWorkspace _ _ _) fun opened => ?_
  cases opened with
  | error why => trivial
  | ok ws =>
    refine recording_runWorker (fun _ => ⟨_, rfl⟩) (fun _ _ => rfl) fun rr => ?_
    exact recording_bind (recording_recordedState _ _ _) fun _ =>
      recording_concludeHarvest _ _ _ _ _ _ _

theorem recording_prefetchHarvest (fid : Nat) (prNumber : Int) (closed : Bool)
    (resume : Option ResumePlan) : Recording (prefetchHarvest fid prNumber closed resume) := by
  refine recording_bind (recording_ask _) fun view => ?_
  cases view with
  | error e => exact recording_bind (recording_harvestPrefetchFailed _ _ _) fun _ => trivial
  | ok pr =>
    dsimp only
    split
    · refine recording_bind (recording_ask _) fun diff => ?_
      cases diff with
      | ok _ => trivial
      | error e => exact recording_bind (recording_harvestPrefetchFailed _ _ _) fun _ => trivial
    · trivial

theorem recording_runHarvest (fid : Nat) (finding : Finding) (resume : Option ResumePlan) :
    Recording (runHarvest fid finding resume) := by
  refine recording_bind (peaceful_liveRepo _).recording fun repo => ?_
  refine recording_bind (peaceful_livePrState _).recording fun ps => ?_
  refine recording_bind (peaceful_prTarget _ _ _).recording fun prNumber => ?_
  refine recording_bind (recording_onlyIf (recording_tryAsk _)) fun _ => ?_
  refine recording_bind (recording_tryAsk _) fun decision => ?_
  cases decision with
  | denied => trivial
  | approved =>
    refine recording_bind (recording_prefetchHarvest _ _ _ _) fun _ => ?_
    refine recording_bind (recording_sql trivial) fun created => ?_
    cases created with
    | none => trivial
    | some created => exact recording_runHarvestJob _ _ _ _ _ _

theorem recording_syncOpen (fid : Nat) (prNumber : Int) (pr : PrView) :
    Recording (syncOpen fid prNumber pr) := by
  refine recording_bind ?_ fun prev => ?_
  · exact recording_bind (recording_sqlResult trivial) fun r => by cases r <;> trivial
  · exact recording_bind (recording_ask _) fun _ => recording_bind (recording_ask _) fun _ =>
      recording_log trivial

theorem recording_syncPr (fid : Nat) (f : Finding) : Recording (syncPr fid f) := by
  unfold syncPr
  split
  · exact recording_log trivial
  · refine recording_bind (recording_sqlResult trivial) fun repo => ?_
    split
    · refine recording_bind (recording_ask _) fun prNumber => ?_
      cases prNumber with
      | none => trivial
      | some prNumber =>
        refine recording_bind (recording_ask _) fun view => ?_
        cases view with
        | error e => trivial
        | ok pr =>
          dsimp only
          split
          · exact recording_bind (recording_ask _) fun _ =>
              recording_bind (recording_log trivial) fun _ => recording_log trivial
          · refine recording_bind (recording_ask _) fun now => ?_
            refine recording_bind (recording_sqlResult trivial) fun r => ?_
            cases r with
            | error e => trivial
            | ok _ => exact recording_log (Or.inr rfl)
          · exact recording_syncOpen _ _ _
    · trivial

theorem recording_syncPrs : Recording syncPrs := by
  refine recording_bind (recording_sqlResult trivial) fun findings => ?_
  cases findings with
  | error e => trivial
  | ok findings =>
    dsimp only
    induction findings with
    | nil => trivial
    | cons row rest ih => exact recording_bind (recording_syncPr _ _) fun _ => ih

theorem recording_startEngage (fid : Nat) (finding : Finding) (resume : Option ResumePlan) :
    Recording (startEngage fid finding resume) := by
  refine recording_bind (peaceful_engageTarget _ _ _).recording fun target => ?_
  obtain ⟨ps, headRef, prNumber⟩ := target
  refine recording_bind (recording_tryAsk _) fun decision => ?_
  cases decision with
  | denied => trivial
  | approved =>
    refine recording_bind (recording_ask _) fun view => ?_
    cases view with
    | error e => trivial
    | ok pr =>
      refine recording_bind (recording_sql trivial) fun created => ?_
      cases created with
      | none => trivial
      | some created =>
        exact recording_bind (recording_openWorkspace _ _ _) fun r => by cases r <;> trivial

theorem recording_withdrawPr (fid repoId : Nat) (start : EngageStart) (reason : Text) :
    Recording (withdrawPr fid repoId start reason) := by
  refine recording_bind ?_ fun forgeClosed => ?_
  · refine recording_bind (recording_ask _) fun owner => ?_
    cases owner with
    | error url => trivial
    | ok _ => exact recording_bind (recording_ask _) fun r => by cases r <;> trivial
  · cases forgeClosed with
    | none =>
      refine recording_bind (peaceful_seenActivity _).recording fun mark => ?_
      exact recording_bind (recording_ask _) fun _ =>
        recording_bind (recording_log trivial) fun _ => trivial
    | some forgeClosed =>
      refine recording_bind (recording_ask _) fun now => ?_
      refine recording_bind (recording_sqlResult trivial) fun r => ?_
      cases r with
      | error e => trivial
      | ok _ =>
        refine recording_bind (recording_sqlResult (Or.inr rfl)) fun r => ?_
        cases r <;> trivial

theorem recording_recordEngage (fid : Nat) (finding : Finding) (start : EngageStart)
    (state : JobState) (published : Except Text Published) :
    Recording (recordEngage fid finding start state published) := by
  cases published with
  | error e =>
    exact recording_bind (recording_onlyIf (recording_log trivial)) fun _ => recording_clearOnce _ _
  | ok published =>
    refine recording_bind (peaceful_engagedMark _ _).recording fun mark => ?_
    exact recording_bind (recording_ask _) fun _ => recording_bind (recording_log trivial) fun _ =>
      recording_clearOnce _ _

theorem recording_continueIntoHarvest (fid repoId : Nat) (start : EngageStart)
    (session : Option Text) : Recording (continueIntoHarvest fid repoId start session) := by
  cases session with
  | none => trivial
  | some sessionFile =>
    refine recording_bind (recording_sqlResult trivial) fun r => ?_
    split
    · exact recording_bind (recording_attempt (recording_runHarvest _ _ _)) fun _ => trivial
    · trivial

theorem recording_concludeEngage (fid : Nat) (finding : Finding) (start : EngageStart)
    (rr : RunResult) (resume : Option ResumePlan) :
    Recording (concludeEngage fid finding start rr resume) := by
  refine recording_bind (recording_recordedState _ _ _) fun state => ?_
  refine recording_bind (recording_ask _) fun withdrawn => ?_
  cases withdrawn with
  | none =>
    refine recording_bind (peaceful_pushAndReply _ _ _).recording fun published => ?_
    exact recording_bind (recording_recordEngage _ _ _ _ _) fun _ =>
      (peaceful_closeWorkspace _).recording
  | some reason =>
    refine recording_bind (recording_clearOnce _ _) fun _ => ?_
    refine recording_bind (recording_withdrawPr _ _ _ _) fun closed => ?_
    refine recording_bind (recording_onlyIf (recording_log trivial)) fun _ => ?_
    exact recording_bind (recording_onlyIf (recording_continueIntoHarvest _ _ _ _)) fun _ =>
      (peaceful_closeWorkspace _).recording

theorem recording_runEngage (fid : Nat) (finding : Finding) (resume : Option ResumePlan) :
    Recording (runEngage fid finding resume) := by
  refine recording_bind (recording_startEngage _ _ _) fun started => ?_
  cases started with
  | none => trivial
  | some start =>
    refine recording_bind (recording_onlyIf (peaceful_tryTree rfl).recording) fun _ => ?_
    exact recording_worker (fun _ => ⟨_, rfl⟩) (fun _ _ => rfl) fun rr =>
      recording_concludeEngage _ _ _ _ _

theorem recording_giveUpChain (job : Row Job) (why : Text) : Recording (giveUpChain job why) :=
  recording_bind (recording_sqlResult trivial) fun r => by cases r <;> trivial

theorem recording_planChain (job : Row Job) (repo : Repo) (plan : ResumePlan) :
    Recording (planChain job repo plan) := by
  refine recording_bind (recording_ask _) fun z => ?_
  refine recording_bind (recording_sql trivial) fun chain => ?_
  split
  · refine recording_bind ?_ fun requeued => ?_
    · unfold operatorRequeued
      split
      · exact recording_bind (recording_sql trivial) fun _ => trivial
      · trivial
    · split
      · trivial
      · exact recording_giveUpChain _ _
  · trivial

theorem recording_retireGone (job : Row Job) : Recording (retireGone job) :=
  recording_bind (recording_log trivial) fun _ => trivial

theorem recording_resumePlan (job : Row Job) : Recording (resumePlan job) := by
  unfold resumePlan
  split
  · trivial
  · refine recording_bind (recording_sql trivial) fun repo => ?_
    cases repo with
    | none => trivial
    | some repo =>
      refine recording_bind (recording_sql trivial) fun origin => ?_
      refine recording_bind (recording_sql trivial) fun sha => ?_
      cases sha with
      | none => exact recording_retireGone _
      | some sha =>
        refine recording_bind (peaceful_tree rfl).recording fun there => ?_
        split
        · exact recording_retireGone _
        · refine recording_bind (recording_ask _) fun inside => ?_
          split
          · exact recording_retireGone _
          · exact recording_planChain _ _ _

theorem recording_countGivenUpChain (kind : FindingJobKind) (fid job : Nat) (why : Text) :
    Recording (countGivenUpChain kind fid job why) := by
  cases kind with
  | recheck => exact recording_handleRecheckFailure _ _ _
  | fix =>
    exact recording_bind (recording_attempt (recording_recordFixFailure _ _ _ _)) fun r => by
      cases r <;> trivial
  | harvest => exact recording_recordHarvestFailure _ _
  | engage =>
    exact recording_bind (recording_ask _) fun _ =>
      recording_bind (recording_sqlResult trivial) fun r => by cases r <;> trivial

theorem recording_resumeFinding (kind : FindingJobKind) (fid : Nat) (jobs : List (Row Job)) :
    Recording (resumeFinding kind fid jobs) := by
  induction jobs with
  | nil => trivial
  | cons job rest ih =>
    unfold resumeFinding
    split
    · refine recording_bind (recording_resumePlan _) fun resumable => ?_
      cases resumable with
      | yes plan => trivial
      | no => exact ih
      | gaveUp why =>
        refine recording_bind (recording_countGivenUpChain _ _ _ _) fun ended => ?_
        split
        · trivial
        · exact ih
    · exact ih

theorem recording_pickResume (jobs : List (Row Job)) : Recording (pickResume jobs) := by
  induction jobs with
  | nil => trivial
  | cons job rest ih =>
    refine recording_bind (recording_resumePlan _) fun resumable => ?_
    cases resumable with
    | yes plan => trivial
    | _ => exact ih

theorem recording_flagged (findings : List (Row Finding)) : Recording (flagged findings) := by
  induction findings with
  | nil => trivial
  | cons row rest ih =>
    refine recording_bind (recording_sql trivial) fun ps => recording_bind ih fun others => ?_
    cases ps with
    | none => trivial
    | some ps =>
      dsimp only
      split <;> trivial

theorem recording_readTiers : Recording readTiers := by
  refine recording_bind (recording_sql trivial) fun rechecking => ?_
  refine recording_bind ?_ fun attention => ?_
  · exact recording_bind (recording_sql trivial) fun _ =>
      recording_bind (recording_flagged _) fun _ => trivial
  · exact recording_bind (recording_sql trivial) fun _ =>
      recording_bind (recording_sql trivial) fun _ => trivial

theorem recording_selectBackground : Recording selectBackground := by
  refine recording_bind (recording_sql trivial) fun jobs => ?_
  refine recording_bind (recording_pickResume _) fun picked => ?_
  cases picked with
  | some candidate => trivial
  | none =>
    refine recording_bind (recording_tryAsk _) fun picked => ?_
    split <;> trivial

theorem recording_select : Recording select := by
  refine recording_bind recording_readTiers fun tiers => ?_
  split
  · refine recording_bind ?_ fun picked => by split <;> trivial
    exact recording_bind (recording_sql trivial) fun _ => recording_resumeFinding _ _ _
  · exact recording_selectBackground

theorem recording_reconcileAndLog : Recording reconcileAndLog := by
  refine recording_bind (recording_sql trivial) fun running => recording_bind ?_ fun _ => ?_
  · induction running with
    | nil => trivial
    | cons job rest ih =>
      refine recording_bind ?_ fun found => ?_
      · refine recording_bind (recording_sql trivial) fun origin => ?_
        refine recording_bind (peaceful_tree rfl).recording fun usage => ?_
        cases usage with
        | none => trivial
        | some usage =>
          refine recording_bind (recording_sql trivial) fun spent => ?_
          dsimp only
          split
          · trivial
          · refine recording_bind (recording_ask _) fun inUse => ?_
            split <;> trivial
      · cases found with
        | none => exact ih
        | some found => exact recording_bind (recording_sql trivial) fun _ => ih
  · refine recording_bind (recording_sql trivial) fun stuck => recording_bind ?_ fun _ => ?_
    · induction stuck with
      | nil => trivial
      | cons f rest ih => exact recording_bind (recording_sql trivial) fun _ => ih
    · refine recording_bind (recording_sql trivial) fun jobs => ?_
      induction jobs with
      | nil => trivial
      | cons job rest ih => exact recording_bind (recording_sql trivial) fun _ => ih

theorem recording_sweepWorkspaces : Recording sweepWorkspaces := by
  refine recording_bind (recording_attempt ?_) fun _ => trivial
  refine recording_bind (recording_sql trivial) fun _ => ?_
  exact recording_bind (recording_ask _) fun _ => (peaceful_sweepChains _).recording

theorem recording_reapDeletedRepos : Recording reapDeletedRepos :=
  peaceful_reapDeletedRepos.recording

theorem recording_runFindingJob (kind : FindingJobKind) (fid : Nat)
    (resume : Option ResumePlan) : Recording (runFindingJob kind fid resume) := by
  refine recording_bind (recording_sql trivial) fun finding => ?_
  cases finding with
  | none => trivial
  | some finding =>
    cases kind with
    | engage => exact recording_runEngage _ _ _
    | harvest => exact recording_runHarvest _ _ _
    | recheck => exact recording_runRecheck _ _ _
    | fix => exact recording_runFix _ _ _

theorem recording_dispatch (candidate : Candidate) : Recording (dispatch candidate) := by
  cases candidate with
  | finding kind fid => exact recording_runFindingJob _ _ _
  | repo kind repoId => exact recording_bind (recording_runRepoJob _ _ _) fun _ => trivial
  | resume plan =>
    unfold dispatch
    dsimp only
    split
    · exact recording_bind (recording_runRepoJob _ _ _) fun _ => trivial
    · split
      · trivial
      · exact recording_runFindingJob _ _ _

theorem recording_runPhase (phase : Phase) : Recording (runPhase phase) := by
  cases phase with
  | startup =>
    exact recording_bind recording_reapDeletedRepos fun _ =>
      recording_bind recording_sweepWorkspaces fun _ => trivial
  | reconcile => exact recording_bind recording_reconcileAndLog fun _ => trivial
  | cycle =>
    refine recording_bind recording_reapDeletedRepos fun _ => ?_
    refine recording_bind recording_sweepWorkspaces fun _ => ?_
    refine recording_bind (recording_sql trivial) fun opened => ?_
    refine recording_bind (recording_onlyIf recording_syncPrs) fun _ => ?_
    refine recording_bind (recording_ask _) fun gated => ?_
    split <;> trivial
  | select =>
    refine recording_bind recording_select fun selection => ?_
    cases selection <;> trivial
  | dispatch candidate => exact recording_bind (recording_dispatch _) fun _ => trivial

/-- Whenever the daemon runs a worker, it goes on as `RecordsWorker` says. -/
theorem recording_reachable {x : Config daemon} (hx : daemon.Reachable x) : Recording x.rest :=
  hx.each recording_runPhase

end Hunter
