import Hunter.Conformance.Fix
set_option autoImplicit false

namespace Hunter
open Effect

variable {a : Memory}

def Fact.onFiling : Fact → Bool
  | rooted _ _ | agrees _ _ | row _ _ | anchored _ _ | lapsed _ _ _ | filed _ _ => true
  | _ => false

theorem Fact.onFiling_onBranch {f : Nat} {x : Fact} (h : x.onBranch f = true) :
    x.onFiling = true := by
  cases x <;> first | rfl | cases h

theorem Fact.onFiling_onAnchor {f : Nat} {x : Fact} (h : x.onAnchor f = true) :
    x.onFiling = true := by
  cases x <;> first | rfl | cases h

theorem Fact.onFiling_isLapsed {x : Fact} (h : x.isLapsed = true) : x.onFiling = true := by
  cases x <;> first | rfl | cases h

theorem Fact.onFiling_isFiled {x : Fact} (h : x.isFiled = true) : x.onFiling = true := by
  cases x <;> first | rfl | cases h

abbrev Files {α : Type} (a : Memory) (p : Act α) : Prop :=
  Follows protocol a p fun _ a' => Keeps (fun x => x.onFiling) a a'

/-- Where entries filed again may be reopened, they are those of the latest job. -/
def Scanning (a : Memory) (repoId : Nat) (job : Option Nat) (reopen : Bool) : Prop :=
  reopen = true → ∀ p, job = some p → ∃ out, Fact.latest p repoId out ∈ a

theorem scanning_false {repoId : Nat} {job : Option Nat} : Scanning a repoId job false := nofun

theorem Scanning.keeps {b : Memory} {repoId : Nat} {job : Option Nat} {reopen : Bool}
    (h : Scanning a repoId job reopen) (hab : Keeps (fun x => x.onFiling) a b) :
    Scanning b repoId job reopen := fun hreopen p hp =>
  (h hreopen p hp).imp fun _ hlatest => hab.known _ hlatest (by simp [Fact.onFiling])

theorem follows_changedSince {repoId fid : Nat} {anchor : VerdictAnchor} {at_ : Text}
    (hanchored : Fact.anchored fid anchor ∈ a) :
    Follows protocol a (changedSince repoId anchor at_) fun r a' =>
      Keeps (fun x => x.isLapsed) a a' ∧
        ∀ changed, r = .ok (some changed) → Fact.lapsed fid repoId at_ ∈ a' := by
  unfold changedSince
  split
  · exact ⟨Keeps.refl _ a, fun _ h => by cases h⟩
  · refine follows_bind.2 (follows_tree.2 ⟨trivial, fun diff => ⟨?_, fun changed h => ?_⟩⟩)
    · exact keeps_next (fun _ hx => hx) fun _ => not_learns_merging_tree
    · have hchanged : anchor.changed diff = some changed := by simpa using h
      exact Or.inr ⟨by rw [hchanged]; rfl, fid, hanchored, rfl⟩

theorem keeps_reopenSuppressed {fid : Nat} {row : FindingInsert} {b : Except Text Bool} :
    Keeps (fun x => x.onFiling) a (a.next (.store (.reopenSuppressed fid row)) b) := by
  cases b with
  | ok b =>
    refine keeps_next (fun x hx => ?_) fun _ => not_learns_merging rfl
    exact hx.elim Fact.onFiling_onBranch Fact.onFiling_onAnchor
  | error e => exact (grows_error rfl).grows

theorem files_refreshDepUpdate {fid : Nat} {row : FindingInsert} :
    Files a (sqlResult (.refreshDepUpdate fid row)) := by
  refine follows_sqlResult.2 ⟨trivial, fun _ _ => ?_, fun _ => (grows_error rfl).grows⟩
  exact keeps_next (fun _ => Fact.onFiling_onBranch) fun _ => not_learns_merging rfl

/-- A finding that the latest job filed again is reopened where its verdict has lapsed in the
clone of the job's repo, at the commit the job is pinned at. -/
theorem files_reopenIfChanged {repoId fid : Nat} {job : Option Nat} {row : FindingInsert}
    (hfiled : Fact.filed fid repoId ∈ a)
    (hscan : ∀ p, job = some p → ∃ out, Fact.latest p repoId out ∈ a) :
    Files a (reopenIfChanged repoId fid job row) := by
  unfold reopenIfChanged
  split
  · exact Keeps.refl _ a
  rename_i job
  obtain ⟨out, hlatest⟩ := hscan job rfl
  refine (peaceful_sql rfl).bind (fun finding a1 h1 => ?_) fun _ _ h => h.grows
  split
  · exact h1.grows
  split
  · exact h1.grows
  refine follows_bind.2 (follows_read rfl (fun anchor a2 _ h2 hlearn => ?_)
    fun _ _ h => (h1.trans h).grows)
  have h12 := h1.trans h2
  cases anchor with
  | none => exact h12.grows
  | some anchor =>
    have hanchored := hlearn _ ⟨anchor, rfl, rfl⟩
    refine follows_bind.2 (follows_read rfl (fun sha a3 _ h3 hlearn => ?_)
      fun _ _ h => (h12.trans h).grows)
    have h13 := h12.trans h3
    cases sha with
    | none => exact h13.grows
    | some sha =>
      have hpinned := hlearn _ ⟨sha, rfl, rfl⟩
      refine (peaceful_sql rfl).bind (fun repo a4 h4 => ?_) fun _ _ h => (h13.trans h).grows
      have h14 := h13.trans h4
      cases repo with
      | none => exact h14.grows
      | some repo =>
        refine follows_bind.2 ((follows_changedSince ((h3.trans h4).mem hanchored)).mono
          fun r a5 h5 => ?_)
        have hkeep : ∀ x ∈ a4, x.isLapsed = false → x ∈ a5 :=
          fun x hx hno => h5.1.known x hx (by simp [hno])
        have h15 := h14.grows.trans (h5.1.weaken fun _ => Fact.onFiling_isLapsed)
        cases r with
        | error e => exact h15
        | ok changed =>
          cases changed with
          | none => exact h15
          | some changed =>
            have hmay : a5.mayReopen fid :=
              ⟨repoId, sha, job, out, hkeep _ (h14.mem hfiled) rfl, h5.2 changed rfl,
                hkeep _ (h14.mem hlatest) rfl, hkeep _ (h4.mem hpinned) rfl⟩
            exact follows_sql.2 ⟨hmay, fun _ _ => h15.trans keeps_reopenSuppressed,
              fun _ => h15.trans keeps_reopenSuppressed⟩

theorem follows_upsertFinding {repoId : Nat} {row : FindingInsert} {type : FindingType} :
    Follows protocol a (sqlResult (.upsertFinding repoId row type)) fun r a' =>
      Keeps (fun x => x.onFiling) a a' ∧
        ∀ f, r = .ok (.ok (f, false)) → Fact.filed f repoId ∈ a' := by
  refine follows_sqlResult.2 ⟨trivial, fun b _ => ⟨?_, fun f h => ?_⟩, fun _ =>
    ⟨(grows_error rfl).grows, nofun⟩⟩
  · exact keeps_next (fun _ hx => Fact.onFiling_isFiled hx.2) fun _ => not_learns_merging rfl
  · cases h
    exact Or.inr ⟨rfl, rfl⟩

theorem files_ingestRow {repoId : Nat} {job : Option Nat} {reopen : Bool} {type : FindingType}
    {row : FindingInsert} (hscan : Scanning a repoId job reopen) :
    Files a (ingestRow repoId job reopen type row) := by
  refine follows_bind.2 (follows_upsertFinding.mono fun r a1 h1 => ?_)
  rcases r with e | e | ⟨fid, _ | _⟩
  · exact h1.1
  · exact h1.1
  · have hscan1 := hscan.keeps h1.1
    refine follows_bind.2 (Follows.mono (Q := fun _ a' => Keeps (fun x => x.onFiling) a a') ?_
      fun r a2 h2 => ?_)
    · cases reopen with
      | false => exact h1.1
      | true =>
        refine follows_bind.2 (follows_attempt.2 ?_)
        refine (files_reopenIfChanged (h1.2 fid rfl) (hscan1 rfl)).mono fun r a2 h2 => ?_
        cases r <;> exact h1.1.trans h2
    · cases r with
      | error e => exact h2
      | ok reopened =>
        dsimp only [onOk]
        split
        · exact h2
        · split
          · refine follows_bind.2 (files_refreshDepUpdate.mono fun r a3 h3 => ?_)
            rcases r with e | e | refreshed <;> exact h2.trans h3
          · exact h2
  · exact h1.1

theorem follows_ingestEntries {repoId : Nat} {job : Option Nat} {reopen : Bool}
    {list : List ScanEntry} (hscan : Scanning a repoId job reopen) :
    Follows protocol a (ingestEntries repoId job reopen list) fun r a' =>
      Keeps (fun x => x.onFiling) a a' ∧ (r = .ok 0 → none ∉ list) := by
  induction list generalizing a with
  | nil => exact ⟨Keeps.refl _ _, fun _ => by simp⟩
  | cons entry rest ih =>
    rcases entry with _ | ⟨type, row⟩
    · refine follows_bind.2 ((ih hscan).mono fun r a1 h1 => ?_)
      cases r with
      | error e => exact ⟨h1.1, nofun⟩
      | ok invalid => exact ⟨h1.1, fun h => by simp at h⟩
    · refine follows_bind.2 ((files_ingestRow hscan).mono fun r a1 h1 => ?_)
      cases r with
      | error e => exact ⟨h1, nofun⟩
      | ok filed =>
        refine follows_bind.2 ((ih (hscan.keeps h1)).mono fun r a2 h2 => ?_)
        cases r with
        | error e => exact ⟨h1.trans h2.1, nofun⟩
        | ok invalid =>
          refine ⟨h1.trans h2.1, fun h => ?_⟩
          cases filed with
          | false => simp at h
          | true =>
            have hzero : invalid = 0 := by simpa using h
            simpa using h2.2 (by rw [hzero])

theorem follows_ingest {repoId : Nat} {job : Option Nat} {reopen : Bool} {file : FindingsFile}
    (hscan : Scanning a repoId job reopen) :
    Follows protocol a (ingest repoId job reopen file) fun r a' =>
      Keeps (fun x => x.onFiling) a a' ∧
        (r = .ok 0 → ∃ list, file = .entries list ∧ none ∉ list) := by
  cases file with
  | missing => exact ⟨Keeps.refl _ _, fun h => by simp at h⟩
  | unreadable => exact ⟨Keeps.refl _ _, fun h => by simp at h⟩
  | entries list =>
    exact (follows_ingestEntries hscan).mono fun r a' h => ⟨h.1, fun h0 => ⟨list, rfl, h.2 h0⟩⟩

theorem tame_ingestFindings (repoId : Nat) (job : Option Nat) (file : FindingsFile) :
    Tame (ingestFindings repoId job file) :=
  fun _ => (follows_ingest scanning_false).mono fun _ _ h =>
    h.1.settles (by simp [Fact.onFiling])

theorem tame_ingestFollowups (repoId origin job : Nat) :
    Tame (ingestFollowups repoId origin job) := by
  refine tame_bind (peaceful_ask rfl).tame fun file => ?_
  split
  · exact tame_done _
  · exact tame_bind (tame_ingestFindings _ _ _) fun _ => tame_done _

theorem tame_reconfirmAll (at_ : Text) (list : List (Nat × Option Text)) :
    Tame (reconfirmAll at_ list) := by
  induction list with
  | nil => exact tame_done _
  | cons entry rest ih => exact tame_bind (tame_log rfl) fun _ => ih

theorem tame_applyReconfirmations (outJob : Nat) (at_ : Text) :
    Tame (applyReconfirmations outJob at_) :=
  tame_bind (peaceful_ask rfl).tame fun _ => tame_reconfirmAll _ _

/-- The first job of the chain a plan goes on with is known. -/
def KnowsOrigin (a : Memory) (resume : Option ResumePlan) : Prop :=
  ∀ plan, resume = some plan → Fact.origin plan.predecessorId plan.originJobId ∈ a

theorem KnowsOrigin.grows {b : Memory} {resume : Option ResumePlan} (h : KnowsOrigin a resume)
    (hab : Grows a b) : KnowsOrigin b resume :=
  fun plan hplan => hab.mem (h plan hplan)

theorem KnowsOrigin.goesTo {resume : Option ResumePlan} {job : Nat} (h : KnowsOrigin a resume) :
    a.goesTo job (resumePredecessor resume) (outJob job resume) := by
  cases resume with
  | none => rfl
  | some plan => exact h plan rfl

theorem follows_findingsFile (n : Nat) :
    Follows protocol a (tree (.findingsFile n)) fun r a' =>
      Keeps (fun x => x.isOutput) a a' ∧ ∀ file, r = .ok file → Fact.output n file ∈ a' :=
  follows_tree.2 ⟨trivial, fun _ => ⟨keeps_next (fun _ hx => hx) fun _ => not_learns_merging_tree,
    fun _ h => by cases h; exact Or.inr rfl⟩⟩

theorem conforms_endScan {out : Nat} {ws : Workspace} (hcalm : Calm a) : Conforms a (do
    applyReconfirmations out ws.pinned
    closeWorkspace ws) :=
  (tame_bind (tame_applyReconfirmations _ _) fun _ =>
    (peaceful_closeWorkspace _).tame).conforms hcalm

theorem conforms_concludeScan {repoId job out : Nat} {ws : Workspace} {resume : Option ResumePlan}
    (hcalm : Calm a) (hlatest : Fact.latest job repoId out ∈ a) :
    Conforms a (concludeScan repoId job ws resume) := by
  refine follows_bind.2 ((follows_findingsFile _).mono fun r a1 h1 => ?_)
  have hc1 := h1.1.calm hcalm
  have hlatest1 := h1.1.known _ hlatest (by simp [Fact.isOutput])
  cases r with
  | error e => exact hc1
  | ok file =>
    dsimp only [onOk]
    split
    · exact conforms_endScan hc1
    · refine follows_bind.2 ((follows_ingest fun _ p hp => ?_).mono fun r a2 h2 => ?_)
      · cases hp
        exact ⟨out, hlatest1⟩
      · have hc2 := h2.1.calm hc1
        cases r with
        | error e => exact hc2
        | ok _ => exact conforms_endScan hc2

theorem conforms_runScanJob {repoId out : Nat} {created : CreatedJob}
    {resume : Option ResumePlan} {spec : TreeSpec} (hcalm : Calm a)
    (hlaunch : Launching a created.id resume)
    (hlatest : Fact.latest created.id repoId out ∈ a)
    (hfresh : resume = none → Fact.fresh created.id none ∈ a) :
    Conforms a (runScanJob repoId created resume spec) := by
  refine conforms_openedJob hcalm hlaunch hfresh ?_ fun _ _ _ hc => hc
  intro ws a1 h1 hc1 hlaunch1
  have hlatest1 := h1.known _ hlatest (by simp [Fact.isTree])
  refine conforms_recorded hc1 hlaunch1 fun state a2 h2 hc2 => ?_
  have hlatest2 := h2.known _ hlatest1 (by simp [Fact.onRecord])
  exact (conforms_concludeScan hc2 hlatest2).andThen fun _ _ hc => hc

theorem conforms_startScanJob {kind : RepoJobKind} {repoId : Nat} {resume : Option ResumePlan}
    {spec : TreeSpec} (hkind : kind ≠ .hunt) (hcalm : Calm a)
    (hresume : Resumes a (.repo kind) repoId none resume) (horigin : KnowsOrigin a resume) :
    Conforms a (startScanJob kind repoId resume spec) := by
  refine (peaceful_onlyIf (peaceful_tryAsk rfl)).andThen hcalm fun _ a1 h1 hc1 => ?_
  refine (peaceful_tryAsk rfl).andThen hc1 fun decision a2 h2 hc2 => ?_
  cases decision with
  | denied => exact hc2
  | approved =>
    have hresume2 := hresume.grows (h1.trans h2)
    have horigin2 := horigin.grows (h1.trans h2)
    refine follows_bind.2 (follows_createJob hresume2.mayCreateRepo ?_ ?_ ?_)
    · intro created a3 h3
      exact conforms_runScanJob (h3.keeps.calm hc2)
        (h3.launching (Or.inl (by simpa using hkind)) hresume2.session)
        (h3.latest _ horigin2.goesTo) fun hr => h3.fresh (resume_eq_none hr)
    · exact fun a3 h3 => h3.calm hc2
    · exact fun _ a3 h3 => h3.calm hc2

theorem conforms_runAnalysisJob {kind : RepoJobKind} {repoId : Nat} {repo : Repo}
    {resume : Option ResumePlan} (hkind : kind ≠ .hunt) (hcalm : Calm a)
    (hresume : Resumes a (.repo kind) repoId none resume) (horigin : KnowsOrigin a resume) :
    Conforms a (runAnalysisJob kind repoId repo resume) := by
  refine (peaceful_ask rfl).andThen hcalm fun cloned a1 h1 hc1 => ?_
  cases cloned with
  | false => exact hc1
  | true =>
    refine (peaceful_onlyIf (peaceful_tryAsk rfl)).andThen hc1 fun _ a2 h2 hc2 => ?_
    exact conforms_startScanJob hkind hc2 (hresume.grows (h1.trans h2))
      (horigin.grows (h1.trans h2))

theorem conforms_settleDepUpdates {repoId : Nat} {scan : DepScan} (hcalm : Calm a) :
    Conforms a (settleDepUpdates repoId scan) := by
  refine (peaceful_sql rfl).andThen hcalm fun _ a1 _ hc1 => ?_
  refine follows_bind.2 (follows_sql.2 ⟨trivial, fun b _ => ?_, fun e => ?_⟩)
  · have h : Keeps (fun x => x.isOneShot) a1
        (a1.next (.store (.handOverQueuedDepUpdates repoId scan.moves)) (.ok b)) :=
      keeps_next (fun _ hx => hx) fun _ => not_learns_merging rfl
    exact h.calm hc1
  · exact (grows_error rfl).calm hc1

theorem conforms_runRenovateScan {repoId : Nat} {scan : DepScan} (hcalm : Calm a) :
    Conforms a (runRenovateScan repoId scan) := by
  refine (peaceful_tryAsk rfl).andThen hcalm fun _ a1 _ hc1 => ?_
  refine (tame_ingestFindings _ _ _).andThen hc1 fun invalid a2 hc2 => ?_
  refine Conforms.andThen ?_ fun _ _ hc => hc
  cases decide (invalid = 0)
  · exact hc2
  · exact conforms_settleDepUpdates hc2

theorem conforms_runDepUpdate {repoId : Nat} {repo : Repo} {resume : Option ResumePlan}
    (hcalm : Calm a) (hresume : Resumes a (.repo .depUpdate) repoId none resume)
    (horigin : KnowsOrigin a resume) : Conforms a (runDepUpdate repoId repo resume) := by
  unfold runDepUpdate
  split
  · exact conforms_runAnalysisJob (by decide) hcalm hresume horigin
  refine (peaceful_ask rfl).andThen hcalm fun cloned a1 h1 hc1 => ?_
  cases cloned with
  | false => exact hc1
  | true =>
    refine (peaceful_tryAsk rfl).andThen hc1 fun _ a2 h2 hc2 => ?_
    refine (peaceful_ask rfl).andThen hc2 fun scan a3 h3 hc3 => ?_
    cases scan with
    | none =>
      have h13 := (h1.trans h2).trans h3
      exact conforms_runAnalysisJob (by decide) hc3 (hresume.grows h13) (horigin.grows h13)
    | some scan => exact conforms_runRenovateScan hc3

end Hunter
