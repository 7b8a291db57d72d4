import Hunter.Effect.Embed
import Hunter.Rotation.Kinds
import Hunter.Scheduler.Select
import Mathlib
set_option autoImplicit false

namespace Hunter
open Effect

/-- An event of the log, its message left out. -/
structure Event where
  kind : Text
  jobId : Option Nat
  findingId : Option Nat
  deriving DecidableEq

/-- The daemon's world with its clock, its log and the columns of `repos` the rotation reads. -/
structure Rota where
  world : World
  clock : Int
  events : List Event
  enabled : Nat → Bool
  lastAt : Nat → RepoJobKind → Option Int

namespace Rota
variable (x : Rota)

def row (id : Nat) (repo : Repo) : RotationRow where
  id := id
  repo := repo
  enabled := x.enabled id
  lastAt := x.lastAt id

def listRepos : List RotationRow :=
  let live := (rows x.world.store.repos).filterMap fun row =>
    (row.val.filter fun repo => !repo.deleted).map (x.row row.id)
  live.insertionSort fun a b => a.repo.name ≤ b.repo.name

def setLastKindAt (repoId : Nat) (kind : RepoJobKind) : Rota :=
  { x with
    lastAt := fun r k => if r = repoId ∧ k = kind then some x.clock else x.lastAt r k }

def logEvent (event : Event) : Rota := { x with events := x.events ++ [event] }

end Rota

/-- Why the rotation picks a repo: its clone is missing, a full hunt is asked for, or the
interval of a kind has passed. -/
inductive Why
  | uncloned
  | urgent
  | due
  deriving DecidableEq

/-- Where in the order of priorities a candidate was found. -/
inductive Tier
  | overridden (kind : FindingJobKind)
  | waiting (kind : FindingJobKind)
  | resume
  | rotation (why : Why)
  deriving DecidableEq

structure Picked where
  tier : Tier
  candidate : Candidate

inductive Turned
  | starts (picked : Picked)
  | ends (candidate : Candidate) (result : Except Text (Option JobState))
  | gaveUp (repoId : Nat) (kind : RepoJobKind)

/-- The daemon's calls, and those on the columns of the rotation. -/
inductive RotaCall : Type → Type 1
  | base {β : Type} (c : Call β) : RotaCall β
  | listRepos : RotaCall (Except Text (List RotationRow))
  | setLastKindAt (repoId : Nat) (kind : RepoJobKind) : RotaCall (Except Text Unit)
  | logEvent (event : Event) : RotaCall (Except Text Unit)
  | tell (turned : Turned) : RotaCall Unit

def Call.onTime (clock : Int) : {β : Type} → Call β → β → Prop
  | _, .ask .now, now => now = clock
  | _, _, _ => True

/-- The repo whose `last_hunt_at` a call has set on the way. -/
def Call.hunted : {β : Type} → Call β → β → Option Nat
  | _, .store (.setLastHunt repoId _), .ok _ => some repoId
  | _, _, _ => none

def Rota.after {β : Type} (x : Rota) (c : Call β) (b : β) (w : World) : Rota :=
  match c.hunted b with
  | some repoId => { x with world := w }.setLastKindAt repoId .hunt
  | none => { x with world := w }

/-- What a call may answer, and what it leaves. -/
inductive RotaStep : {β : Type} → RotaCall β → Rota → β → Rota → Prop
  | base {β : Type} {c : Call β} {x : Rota} {b : β} {w : World} :
      CallStep c x.world b w → c.onTime x.clock b → RotaStep (.base c) x b (x.after c b w)
  | listRepos (x : Rota) : RotaStep .listRepos x (.ok x.listRepos) x
  | listReposError (x : Rota) (e : Text) : RotaStep .listRepos x (.error e) x
  | setLastKindAt (repoId : Nat) (kind : RepoJobKind) (x : Rota) :
      RotaStep (.setLastKindAt repoId kind) x (.ok ()) (x.setLastKindAt repoId kind)
  | setLastKindAtError (repoId : Nat) (kind : RepoJobKind) (x : Rota) (e : Text) :
      RotaStep (.setLastKindAt repoId kind) x (.error e) x
  | logEvent (event : Event) (x : Rota) :
      RotaStep (.logEvent event) x (.ok ()) (x.logEvent event)
  | logEventError (event : Event) (x : Rota) (e : Text) :
      RotaStep (.logEvent event) x (.error e) x
  | tell (turned : Turned) (x : Rota) : RotaStep (.tell turned) x () x

abbrev RotaAct (α : Type) := Prog RotaCall Text α

namespace RotaAct

def base {α : Type} (p : Act α) : RotaAct α := p.embed .base

/-- `?` on `list_repos`. -/
def listRepos : RotaAct (List RotationRow) := Prog.try_ .listRepos

def setLastKindAt (repoId : Nat) (kind : RepoJobKind) : RotaAct Unit :=
  .call (.setLastKindAt repoId kind) fun _ => .done ()

def logEvent (event : Event) : RotaAct Unit :=
  .call (.logEvent event) fun _ => .done ()

def tell (turned : Turned) : RotaAct Unit := Prog.ask (.tell turned)

end RotaAct

section
variable {β : Type} {x y : Rota}

@[simp] theorem Rota.world_setLastKindAt {repoId : Nat} {kind : RepoJobKind} :
    (x.setLastKindAt repoId kind).world = x.world := rfl

@[simp] theorem Rota.clock_setLastKindAt {repoId : Nat} {kind : RepoJobKind} :
    (x.setLastKindAt repoId kind).clock = x.clock := rfl

@[simp] theorem Rota.world_after {c : Call β} {b : β} {w : World} :
    (x.after c b w).world = w := by
  unfold after
  split <;> rfl

@[simp] theorem Rota.clock_after {c : Call β} {b : β} {w : World} :
    (x.after c b w).clock = x.clock := by
  unfold after
  split <;> rfl

def RotaCall.Leaves (x y : Rota) : {β : Type} → RotaCall β → β → Prop
  | _, .base c, b => ∃ w, CallStep c x.world b w ∧ c.onTime x.clock b ∧ y = x.after c b w
  | _, .listRepos, r => y = x ∧ ∀ repos, r = .ok repos → repos = x.listRepos
  | _, .setLastKindAt repoId kind, r =>
    r = .ok () ∧ y = x.setLastKindAt repoId kind ∨ (∃ e, r = .error e) ∧ y = x
  | _, .logEvent event, _ => y = x ∨ y = x.logEvent event
  | _, .tell _, _ => y = x

theorem RotaStep.leaves {c : RotaCall β} {b : β} (h : RotaStep c x b y) : c.Leaves x y b := by
  cases h with
  | base hstep htime => exact ⟨_, hstep, htime, rfl⟩
  | listRepos => exact ⟨rfl, fun _ h => (Except.ok.inj h).symm⟩
  | listReposError => exact ⟨rfl, nofun⟩
  | setLastKindAt => exact Or.inl ⟨rfl, rfl⟩
  | setLastKindAtError => exact Or.inr ⟨⟨_, rfl⟩, rfl⟩
  | logEvent => exact Or.inr rfl
  | logEventError => exact Or.inl rfl
  | tell => rfl

theorem RotaStep.callStep {c : Call β} {b : β} (h : RotaStep (.base c) x b y) :
    CallStep c x.world b y.world := by
  obtain ⟨w, hstep, -, rfl⟩ := h.leaves
  rw [Rota.world_after]
  exact hstep

end

end Hunter
