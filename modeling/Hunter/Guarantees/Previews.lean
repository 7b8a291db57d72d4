import Hunter.Rotation.Replay
import Hunter.Rotation.Select
set_option autoImplicit false

namespace Hunter
open Effect RotaAct

/-! A preview writes nothing, and where the pick retires nothing it shows the pick. -/

def StoreCall.isRead : {β : Type} → StoreCall β → Bool
  | _, .getFinding _ | _, .getPrState _ | _, .findingsWithStatus _ | _, .listPendingHarvest
  | _, .listResumableJobs | _, .getRepoById _ | _, .resumeOriginJob _ | _, .resumeChainStats _
  | _, .pinnedSha _ | _, .jobBlocker _ => true
  | _, _ => false

def Call.isRead : {β : Type} → Call β → Bool
  | _, .ask _ => true
  | _, .store c => c.isRead
  | _, .tree (.isDir _) => true
  | _, .tree c => c.reads

def RotaCall.Inert {β : Type} (c : RotaCall β) : Prop :=
  ∀ x b y, RotaStep c x b y → y = x

section
variable {β : Type}

theorem StoreCall.apply_isRead {c : StoreCall β} {s s' : Store} {b : β} (h : c.isRead = true)
    (happly : c.apply s = some (b, s')) : s' = s := by
  cases c <;> first | exact absurd h Bool.false_ne_true | (cases happly; rfl)

theorem CallStep.eq_of_isRead {c : Call β} {w w' : World} {b : β} (h : CallStep c w b w')
    (hread : c.isRead = true) : w' = w := by
  cases h with
  | store happly => rw [StoreCall.apply_isRead hread happly]
  | create | createError | release => cases hread
  | _ => rfl

theorem Call.hunted_of_isRead {c : Call β} {b : β} (h : c.isRead = true) : c.hunted b = none := by
  cases c with
  | store c =>
    cases c with
    | setLastHunt => cases h
    | _ => rfl
  | _ => rfl

theorem inert_base {c : Call β} (h : c.isRead = true) : (RotaCall.base c).Inert := by
  intro x b y hstep
  obtain ⟨w, hcall, -, rfl⟩ := hstep.leaves
  rw [Rota.after, Call.hunted_of_isRead h, hcall.eq_of_isRead h]

theorem inert_listRepos : RotaCall.listRepos.Inert :=
  fun _ _ _ hstep => hstep.leaves.1

end

abbrev Reads {α : Type} (p : Act α) : Prop := Within (fun c => c.isRead = true) (fun _ => True) p

/-- Each of the program's calls leaves every table as it is, and it returns what meets `Q`. -/
abbrev Previews {α : Type} (Q : α → Prop) (p : RotaAct α) : Prop := Within RotaCall.Inert Q p

def Resumable.isGivenUp : Resumable → Bool
  | gaveUp _ => true
  | _ => false

section
variable {β : Type}

theorem reads_sql {c : StoreCall β} (h : c.isRead = true) : Reads (sql c) :=
  ⟨h, fun b => by cases b <;> trivial⟩

theorem reads_isDir (origin : Nat) : Reads (tree (.isDir origin)) :=
  ⟨rfl, fun _ => trivial⟩

theorem reads_flagged (found : List (Row Finding)) : Reads (flagged found) := by
  induction found with
  | nil => trivial
  | cons row rest ih =>
    refine (reads_sql rfl).bind fun ps _ => ih.bind fun others _ => ?_
    cases ps with
    | none => trivial
    | some ps =>
      dsimp only
      split <;> trivial

theorem reads_readTiers : Reads readTiers := by
  refine (reads_sql rfl).bind fun rechecking _ => Within.bind (Q := fun _ => True) ?_
    fun attention _ => ?_
  · exact (reads_sql rfl).bind fun found _ => (reads_flagged found).bind fun _ _ => trivial
  · exact (reads_sql rfl).bind fun pendingHarvest _ =>
      (reads_sql rfl).bind fun queued _ => trivial

theorem reads_operatorRequeued (job : Row Job) : Reads (operatorRequeued job) := by
  unfold operatorRequeued
  split
  · exact (reads_sql rfl).bind fun _ _ => trivial
  · trivial

theorem previews_base {p : Act β} (h : Reads p) : Previews (fun _ => True) (base p) :=
  within_embed h fun _ hc => inert_base hc

theorem previews_sql {c : StoreCall β} (h : c.isRead = true) :
    Previews (fun _ => True) (base (sql c)) :=
  previews_base (reads_sql h)

theorem previews_ask (q : Query β) : Previews (fun _ => True) (base (ask q)) :=
  previews_base ⟨rfl, fun _ => trivial⟩

theorem previews_planChainIn (job : Row Job) (repo : Repo) (plan : ResumePlan) :
    Previews (fun r => r.isGivenUp = false) (planChainIn .preview job repo plan) := by
  refine (previews_ask _).bind fun z _ => (previews_sql rfl).bind fun chain _ => ?_
  split
  · refine (previews_base (reads_operatorRequeued job)).bind fun requeued _ => ?_
    cases requeued <;> rfl
  · rfl

theorem previews_resumePlanIn (job : Row Job) :
    Previews (fun r => r.isGivenUp = false) (resumePlanIn .preview job) := by
  unfold resumePlanIn
  split
  · rfl
  · refine (previews_sql rfl).bind fun repo _ => ?_
    cases repo with
    | none => rfl
    | some repo =>
      refine (previews_sql rfl).bind fun origin _ => (previews_sql rfl).bind fun sha _ => ?_
      cases sha with
      | none => rfl
      | some sha =>
        refine (previews_base (reads_isDir origin)).bind fun there _ => ?_
        cases there with
        | false => rfl
        | true =>
          refine (previews_ask _).bind fun inside _ => ?_
          cases inside with
          | false => rfl
          | true => exact previews_planChainIn job repo _

theorem previews_resumeFindingIn (kind : FindingJobKind) (fid : Nat) (jobs : List (Row Job)) :
    Previews (fun c => c.isSome = true) (resumeFindingIn .preview kind fid jobs) := by
  induction jobs with
  | nil => rfl
  | cons job rest ih =>
    unfold resumeFindingIn
    split
    · refine (previews_resumePlanIn job).bind fun planned hplanned => ?_
      cases planned with
      | yes plan => rfl
      | gaveUp why => cases hplanned
      | no => exact ih
    · exact ih

theorem previews_pickResumeIn (jobs : List (Row Job)) :
    Previews (fun _ => True) (pickResumeIn .preview jobs) := by
  induction jobs with
  | nil => trivial
  | cons job rest ih =>
    refine (previews_resumePlanIn job).bind fun planned _ => ?_
    cases planned with
    | yes plan => trivial
    | gaveUp why => exact ih
    | no => exact ih

theorem previews_rotate (cfg : ScanConfig) (now : Int) (repos : List RotationRow) :
    Previews (fun _ => True) (rotate cfg now repos) := by
  induction repos with
  | nil => trivial
  | cons target rest ih =>
    refine (previews_ask _).bind fun cloned _ => ?_
    split
    · trivial
    · split
      · trivial
      · split
        · trivial
        · exact ih

theorem previews_rotationTier (cfg : ScanConfig) :
    Previews (fun _ => True) (rotationTier cfg) := by
  refine Within.bind (Q := fun _ => True) ⟨inert_listRepos, fun repos => ?_⟩ fun repos _ => ?_
  · cases repos <;> trivial
  · exact (previews_ask _).bind fun now _ => previews_rotate cfg now _

theorem previews_selectBackgroundIn (cfg : ScanConfig) :
    Previews (fun choice => choice.isAgain = false) (selectBackgroundIn cfg .preview) := by
  refine (previews_sql rfl).bind fun jobs _ => (previews_pickResumeIn jobs).bind fun resumed _ => ?_
  cases resumed with
  | some candidate => rfl
  | none =>
    refine (previews_rotationTier cfg).bind fun rotated _ => ?_
    cases rotated <;> rfl

/-- A preview makes its selection once. -/
theorem previews_previewNext (cfg : ScanConfig) :
    Previews (fun choice => choice.isAgain = false) (previewNext cfg) := by
  refine (previews_base reads_readTiers).bind fun tiers _ => ?_
  split
  · refine Within.bind (Q := fun c => c.isSome = true) ?_ fun candidate hfound => ?_
    · exact (previews_sql rfl).bind fun jobs _ => previews_resumeFindingIn _ _ jobs
    · cases candidate with
      | none => cases hfound
      | some candidate => rfl
  · exact previews_selectBackgroundIn cfg

end

def RotaCall.retires : {β : Type} → RotaCall β → Bool
  | _, .base (.store (.retireSuspendedJob _ _ _)) => true
  | _, _ => false

/-- The pick and the preview of it are the same up to a retirement. -/
abbrev PartsAtRetirement {α : Type} (p q : RotaAct α) : Prop := PartsAt RotaCall.retires p q

theorem surely_retireGone (job : Row Job) : Surely RotaCall.retires (base (retireGone job)) :=
  Or.inl rfl

theorem surely_giveUpChain (job : Row Job) (why : Text) :
    Surely RotaCall.retires (base (giveUpChain job why)) :=
  Or.inl rfl

theorem partsAt_retireGoneIn (job : Row Job) :
    PartsAtRetirement (retireGoneIn .run job) (retireGoneIn .preview job) :=
  .parted (surely_retireGone job).bind

theorem partsAt_giveUpChainIn (job : Row Job) (why : Text) :
    PartsAtRetirement (giveUpChainIn .run job why) (giveUpChainIn .preview job why) := by
  refine .parted ?_
  change Surely _ (endChainTurn job >>= fun _ => base (giveUpChain job why) >>= _)
  unfold endChainTurn
  cases job.val.kind with
  | repo kind => exact Or.inr fun _ => (surely_giveUpChain job why).bind
  | finding kind => exact (surely_giveUpChain job why).bind

theorem partsAt_planChainIn (job : Row Job) (repo : Repo) (plan : ResumePlan) :
    PartsAtRetirement (planChainIn .run job repo plan) (planChainIn .preview job repo plan) := by
  refine (PartsAt.refl _).bind fun z => (PartsAt.refl _).bind fun chain => ?_
  split
  · refine (PartsAt.refl _).bind fun requeued => ?_
    cases requeued with
    | true => exact .refl _
    | false => exact partsAt_giveUpChainIn job _
  · exact .refl _

theorem partsAt_resumePlanIn (job : Row Job) :
    PartsAtRetirement (resumePlanIn .run job) (resumePlanIn .preview job) := by
  unfold resumePlanIn
  split
  · exact .refl _
  · refine (PartsAt.refl _).bind fun repo => ?_
    cases repo with
    | none => exact .refl _
    | some repo =>
      refine (PartsAt.refl _).bind fun origin => (PartsAt.refl _).bind fun sha => ?_
      cases sha with
      | none => exact partsAt_retireGoneIn job
      | some sha =>
        refine (PartsAt.refl _).bind fun there => ?_
        cases there with
        | false => exact partsAt_retireGoneIn job
        | true =>
          refine (PartsAt.refl _).bind fun inside => ?_
          cases inside with
          | false => exact partsAt_retireGoneIn job
          | true => exact partsAt_planChainIn job repo _

theorem partsAt_resumeFindingIn (kind : FindingJobKind) (fid : Nat) (jobs : List (Row Job)) :
    PartsAtRetirement (resumeFindingIn .run kind fid jobs)
      (resumeFindingIn .preview kind fid jobs) := by
  induction jobs with
  | nil => exact .refl _
  | cons job rest ih =>
    unfold resumeFindingIn
    split
    · refine (partsAt_resumePlanIn job).bind fun planned => ?_
      cases planned with
      | yes plan => exact .refl _
      | gaveUp why =>
        refine (PartsAt.refl _).bind fun ended => ?_
        cases ended with
        | true => exact .refl _
        | false => exact ih
      | no => exact ih
    · exact ih

theorem partsAt_pickResumeIn (jobs : List (Row Job)) :
    PartsAtRetirement (pickResumeIn .run jobs) (pickResumeIn .preview jobs) := by
  induction jobs with
  | nil => exact .refl _
  | cons job rest ih =>
    refine (partsAt_resumePlanIn job).bind fun planned => ?_
    cases planned with
    | yes plan => exact .refl _
    | gaveUp why => exact ih
    | no => exact ih

theorem partsAt_selectIn (cfg : ScanConfig) :
    PartsAtRetirement (pickNext cfg) (previewNext cfg) := by
  refine (PartsAt.refl _).bind fun tiers => ?_
  split
  · refine PartsAt.bind ?_ fun candidate => .refl _
    exact (PartsAt.refl _).bind fun jobs => partsAt_resumeFindingIn _ _ jobs
  · refine (PartsAt.refl _).bind fun jobs => (partsAt_pickResumeIn jobs).bind fun resumed => ?_
    exact .refl _

/-- Whatever a preview is answered, each of its calls leaves every table as it is and it
selects but once; and what it shows is what the pick, answered alike in the same state,
would take up, unless that retires a suspension on its way. -/
theorem preview_shows_pick (cfg : ScanConfig) :
    Within RotaCall.Inert (fun choice => choice.isAgain = false) (previewNext cfg) ∧
      ∀ (o : Oracle RotaCall Rota) (x : Rota), o.Obeys RotaStep →
        (o.eval (previewNext cfg) x).2 = x ∧
          (o.issues RotaCall.retires (pickNext cfg) x = false →
            (o.eval (previewNext cfg) x).1 = (o.eval (pickNext cfg) x).1) := by
  refine ⟨previews_previewNext cfg, fun o x ho => ⟨?_, fun hno => ?_⟩⟩
  · exact ((previews_previewNext cfg).eval ho (fun _ _ _ _ hinert => hinert _ _ _) x).1
  · rw [(partsAt_selectIn cfg).eval_eq hno]

def dailyScans : ScanConfig where
  scanIntervalMs := 86400000
  modernizationIntervalDays := 30
  standardsIntervalDays := 30

def pausedRota : Rota := Rota.start 1 pausedFix.state

/-- Both would resume it. -/
theorem preview_shows_pick_paused :
    (routine.rota.eval (previewNext dailyScans) pausedRota).2 = pausedRota ∧
      (routine.rota.eval (previewNext dailyScans) pausedRota).1 =
        (routine.rota.eval (pickNext dailyScans) pausedRota).1 :=
  have h := (preview_shows_pick dailyScans).2 routine.rota pausedRota routine.obeys_rota
  ⟨h.1, h.2 (by decide +kernel)⟩

end Hunter
