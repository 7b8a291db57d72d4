import Hunter.Conformance.Workers
import Hunter.Guarantees.Recoveries
import Hunter.Scavenge.Metering
set_option autoImplicit false

namespace Hunter
open Effect
open Scavenge (SessionDir Child Message Metered)

/-! What a resumed attempt comes to whose worker began a new session over the named one. -/

/-- A lost resume: its output is marked, its directory billed from nothing, and its job recorded
and concluded as any attempt that ends so is. -/
structure ReportedLost (parse : Text → Option Message) (job : Nat) (child : Child) (m : Metered)
    (k : Except Text RunResult → Act Phase) : Prop where
  marked : m.run.stdoutTail = "[resume-lost] ".toList ++ child.output
  metered : ∀ first usage, Scavenge.ledgerDirUsage parse child.after = some (first, usage) →
    m.run.sessionFile = some first ∧ m.run.tokensNew = max usage.1 0 ∧ m.calls = max usage.2 0
  recorded : ∃ rest, k (.ok m.run) = .call (.store (.completeJob job m.run.outcome)) rest
  done_iff : m.run.outcome.state = .done ↔
    child.killed = none ∧ child.exitCode = some 0 ∧ m.calls ≠ 0
  concluded : ∀ tail,
    (k (.ok m.run)).embed Call.unworded = (k (.ok (m.run.withTail tail))).embed Call.unworded

theorem jobState_done_iff {rr : RunResult} :
    jobState rr = .done ↔ rr.killedReason = none ∧ rr.exitCode = some 0 := by
  unfold jobState
  cases rr.killedReason with
  | none =>
    rw [and_iff_right rfl]
    dsimp only
    split
    · simp [*]
    · split <;> simp [*]
  | some reason =>
    refine iff_of_false ?_ nofun
    dsimp only
    repeat' split
    all_goals nofun

section
variable {parse : Text → Option Message} {dir : SessionDir} {named : Text} {child : Child}

theorem runWorker_ran (hsource : Scavenge.refusal (some dir) named = none) :
    Scavenge.runWorker parse (some dir) (some named) (.ran child) =
      Scavenge.settle parse dir (some named) child := by
  simp only [Scavenge.runWorker, hsource, Option.getD_some, Scavenge.spawn]

theorem settle_lost (parse : Text → Option Message)
    (hlost : Scavenge.resumeLost dir child.after (some named) = true) :
    (Scavenge.settle parse dir (some named) child).run.stdoutTail =
        "[resume-lost] ".toList ++ child.output ∧
      (∀ first usage, Scavenge.ledgerDirUsage parse child.after = some (first, usage) →
        (Scavenge.settle parse dir (some named) child).run.sessionFile = some first ∧
        (Scavenge.settle parse dir (some named) child).run.tokensNew = max usage.1 0 ∧
        (Scavenge.settle parse dir (some named) child).calls = max usage.2 0) := by
  refine ⟨?_, fun first usage hread => ?_⟩
  · simp only [Scavenge.settle, hlost, if_true]
  · simp only [Scavenge.settle, hlost, if_true, Scavenge.reading, hread, Prod.fst_zero,
      Prod.snd_zero, sub_zero, and_self]

theorem settle_done_iff : jobState (Scavenge.settle parse dir (some named) child).run = .done ↔
    child.killed = none ∧ child.exitCode = some 0 ∧
      (Scavenge.settle parse dir (some named) child).calls ≠ 0 := by
  rw [jobState_done_iff]
  simp only [Scavenge.settle, Option.isSome_some, if_true]
  generalize (Scavenge.reading parse child.after _ _).2.2 = calls
  cases child.killed <;> by_cases hcalls : calls = 0 <;> simp [hcalls]

end

/-- Wherever the daemon resumes a session, a worker that lost it is reported, and nothing else
is made of it. -/
theorem lost_resume_reported {x : Config daemon} (hx : daemon.Reachable x) {job origin : Nat}
    {named : Text} {k : Except Text RunResult → Act Phase}
    (hrest : x.rest = .call (.tree (.runWorker job origin (some named))) k)
    (parse : Text → Option Message) {dir : SessionDir} {child : Child}
    (hsource : Scavenge.refusal (some dir) named = none)
    (hlost : Scavenge.resumeLost dir child.after (some named) = true) :
    ReportedLost parse job child
      (Scavenge.runWorker parse (some dir) (some named) (.ran child)) k := by
  have hrecording := recording_reachable hx
  rw [hrest] at hrecording
  rw [runWorker_ran hsource]
  obtain ⟨hrecorded, htail⟩ := hrecording.1 (Scavenge.settle parse dir (some named) child).run
  obtain ⟨hmarked, hmetered⟩ := settle_lost parse hlost
  exact ⟨hmarked, hmetered, hrecorded, settle_done_iff, htail⟩

def sessionDir (records : List Text) : SessionDir where
  files := [(['s'], records)]
  nodup := by simp

/-- A worker that writes a fresh session over the named one, and exits. -/
def freshChild : Child where
  polled := sessionDir [Scavenge.openingRecord ['2'], Scavenge.callRecord 5]
  after := sessionDir [Scavenge.openingRecord ['2'], Scavenge.callRecord 5]
  killed := none
  exitCode := some 0
  output := "done".toList

theorem resumedFix_resumes : ∃ origin k,
    resumedFix.rest = .call (.tree (.runWorker 2 origin (some ['s']))) k := by
  have hnext : Machine.nextIs (isResumeOf 2 ['s']) resumedFix.rest = true := by decide +kernel
  obtain ⟨β, c, k, hrest, hresume⟩ := Machine.exists_next hnext
  cases c with
  | ask | store => cases hresume
  | tree c =>
    cases c with
    | runWorker job origin session =>
      simp only [isResumeOf, Bool.and_eq_true, decide_eq_true_eq] at hresume
      obtain ⟨rfl, rfl⟩ := hresume
      exact ⟨origin, k, hrest⟩
    | _ => cases hresume

theorem lost_resume_reported_fix : ∃ origin k,
    resumedFix.rest = .call (.tree (.runWorker 2 origin (some ['s']))) k ∧
      ReportedLost Scavenge.readRecord 2 freshChild
        (Scavenge.runWorker Scavenge.readRecord
          (some (sessionDir [Scavenge.openingRecord ['1']])) (some ['s']) (.ran freshChild)) k := by
  obtain ⟨origin, k, hrest⟩ := resumedFix_resumes
  exact ⟨origin, k, hrest, lost_resume_reported reachable_resumedFix hrest _ (by decide +kernel)
    (by decide +kernel)⟩

end Hunter
