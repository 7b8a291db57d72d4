import Hunter.Effect.Refines
import Hunter.Rotation.Select
set_option autoImplicit false

namespace Hunter
open Effect RotaAct

/-! The selection with its rotation makes no pick that the daemon's own could not make. -/

def daemonView : Views RotaCall Call Rota World where
  wide := RotaStep
  narrow := CallStep
  proj := Rota.world

section
variable {α β γ : Type}

theorem refines_base (p : Act α) : Refines daemonView id (base p) p :=
  refines_embed p fun _ _ _ _ hstep => hstep.callStep

theorem refines_logEvent {f : α → β} (event : Event) {k : Unit → RotaAct α} {q : Act β}
    (hk : Refines daemonView f (k ()) q) : Refines daemonView f (logEvent event >>= k) q := by
  refine refines_call (fun x a y hstep => ?_) fun _ => hk
  rcases hstep.leaves with rfl | rfl <;> rfl

theorem refines_tell {f : α → β} (turned : Turned) {k : Unit → RotaAct α} {q : Act β}
    (hk : Refines daemonView f (k ()) q) : Refines daemonView f (tell turned >>= k) q :=
  refines_call (fun _ _ _ hstep => congrArg Rota.world hstep.leaves) fun _ => hk

theorem refines_setLastKindAt {f : α → β} (repoId : Nat) (kind : RepoJobKind)
    {k : Unit → RotaAct α} {q : Act β} (hk : Refines daemonView f (k ()) q) :
    Refines daemonView f (setLastKindAt repoId kind >>= k) q := by
  refine refines_call (fun x a y hstep => ?_) fun _ => hk
  rcases hstep.leaves with ⟨-, rfl⟩ | ⟨-, rfl⟩ <;> rfl

theorem refines_endChainTurn {f : α → β} (job : Row Job) {k : Unit → RotaAct α} {q : Act β}
    (hk : Refines daemonView f (k ()) q) : Refines daemonView f (endChainTurn job >>= k) q := by
  unfold endChainTurn
  split
  · exact refines_setLastKindAt _ _ hk
  · exact hk

theorem refines_tellGaveUp {f : α → β} (job : Row Job) (retired : Resumable)
    {k : Unit → RotaAct α} {q : Act β} (hk : Refines daemonView f (k ()) q) :
    Refines daemonView f (tellGaveUp job retired >>= k) q := by
  unfold tellGaveUp
  split
  · exact refines_tell _ hk
  · exact hk

end

theorem refines_retireGoneIn (job : Row Job) :
    Refines daemonView id (retireGoneIn .run job) (retireGone job) :=
  refines_of_bind_done <| refines_bind (refines_base _) fun gone =>
    refines_logEvent _ (refines_done id gone)

theorem refines_giveUpChainIn (job : Row Job) (why : Text) :
    Refines daemonView id (giveUpChainIn .run job why) (giveUpChain job why) := by
  refine refines_of_bind_done (refines_endChainTurn job ?_)
  exact refines_bind (refines_base _) fun retired =>
    refines_logEvent _ (refines_tellGaveUp job retired (refines_done id retired))

theorem refines_planChainIn (job : Row Job) (repo : Repo) (plan : ResumePlan) :
    Refines daemonView id (planChainIn .run job repo plan) (planChain job repo plan) := by
  refine refines_bind (refines_base _) fun z => refines_bind (refines_base _) fun chain => ?_
  dsimp only [id_eq]
  split
  · refine refines_bind (refines_base _) fun requeued => ?_
    cases requeued with
    | true => exact refines_done id _
    | false => exact refines_giveUpChainIn job _
  · exact refines_done id _

theorem refines_resumePlanIn (job : Row Job) :
    Refines daemonView id (resumePlanIn .run job) (resumePlan job) := by
  unfold resumePlanIn resumePlan
  cases job.val.sessionFile with
  | none => exact refines_done id _
  | some sessionFile =>
    refine refines_bind (refines_base _) fun repo => ?_
    cases repo with
    | none => exact refines_done id _
    | some repo =>
      refine refines_bind (refines_base _) fun origin => refines_bind (refines_base _) fun sha => ?_
      cases sha with
      | none => exact refines_retireGoneIn job
      | some sha =>
        refine refines_bind (refines_base _) fun there => ?_
        cases there with
        | false => exact refines_retireGoneIn job
        | true =>
          refine refines_bind (refines_base _) fun inside => ?_
          cases inside with
          | false => exact refines_retireGoneIn job
          | true => exact refines_planChainIn job repo _

theorem refines_resumeFindingIn (kind : FindingJobKind) (fid : Nat) (jobs : List (Row Job)) :
    Refines daemonView id (resumeFindingIn .run kind fid jobs) (resumeFinding kind fid jobs) := by
  induction jobs with
  | nil => exact refines_done id _
  | cons job rest ih =>
    unfold resumeFindingIn resumeFinding
    split
    · refine refines_bind (refines_resumePlanIn job) fun planned => ?_
      cases planned with
      | yes plan => exact refines_done id _
      | gaveUp why =>
        refine refines_bind (refines_base _) fun ended => ?_
        cases ended with
        | true => exact refines_done id _
        | false => exact ih
      | no => exact ih
    · exact ih

theorem refines_findingPickIn (kind : FindingJobKind) (fid : Nat) :
    Refines daemonView id (findingPickIn .run kind fid) (findingPick kind fid) :=
  refines_bind (refines_base _) fun jobs => refines_resumeFindingIn kind fid jobs

theorem refines_pickResumeIn (jobs : List (Row Job)) :
    Refines daemonView id (pickResumeIn .run jobs) (pickResume jobs) := by
  induction jobs with
  | nil => exact refines_done id _
  | cons job rest ih =>
    refine refines_bind (refines_resumePlanIn job) fun planned => ?_
    cases planned with
    | yes plan => exact refines_done id _
    | gaveUp why => exact ih
    | no => exact ih

abbrev Still {β : Type} (c : RotaCall β) : Prop :=
  ∀ x b y, RotaStep c x b y → y.world = x.world

theorem still_listRepos : Still .listRepos :=
  fun _ _ _ hstep => congrArg Rota.world hstep.leaves.1

theorem still_ask {β : Type} (q : Query β) : Still (.base (.ask q)) :=
  fun _ _ _ hstep => hstep.callStep.leaves

theorem only_rotate (cfg : ScanConfig) (now : Int) (repos : List RotationRow) :
    Only Still (rotate cfg now repos) := by
  induction repos with
  | nil => trivial
  | cons target rest ih =>
    refine ⟨still_ask _, fun cloned => ?_⟩
    cases cloned with
    | false => trivial
    | true =>
      split
      · trivial
      · split
        · trivial
        · exact ih

theorem unseen_rotationTier (cfg : ScanConfig) : Unseen daemonView (rotationTier cfg) := by
  refine unseen_of_only (only_bind (p := listRepos) ⟨still_listRepos, fun repos => ?_⟩
    fun repos => ⟨still_ask _, fun now => only_rotate cfg now _⟩)
  cases repos <;> trivial

theorem refines_selectBackgroundIn (cfg : ScanConfig) :
    Refines daemonView Choice.selection (selectBackgroundIn cfg .run) selectBackground := by
  refine refines_bind (refines_base _) fun jobs =>
    refines_bind (refines_pickResumeIn jobs) fun resumed => ?_
  cases resumed with
  | some candidate => exact refines_done Choice.selection _
  | none =>
    refine refines_bind (f := Option.map Prod.snd)
      (refines_try (unseen_rotationTier cfg) fun w r => .ask .rotationPick w r) fun rotated => ?_
    cases rotated <;> exact refines_done Choice.selection _

/-- Each selection, its rotation tier and its notes left out, is one of the daemon's. -/
theorem pickNext_refines (cfg : ScanConfig) {x y : Rota} {r : Except Text Choice}
    (hrun : Runs RotaStep (pickNext cfg) x r y) :
    Runs CallStep select x.world (r.map Choice.selection) y.world := by
  suffices h : Refines daemonView Choice.selection (pickNext cfg) select from h x r y hrun
  refine refines_bind (refines_base _) fun tiers => ?_
  rw [id_eq, Tiers.pick_eq]
  cases tiers.pickTier with
  | none => exact refines_selectBackgroundIn cfg
  | some found =>
    refine refines_bind (refines_findingPickIn _ _) fun candidate => ?_
    cases candidate <;> exact refines_done Choice.selection _

end Hunter
