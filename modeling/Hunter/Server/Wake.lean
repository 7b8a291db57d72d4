import Hunter.Domain
import Hunter.Effect.Pool
set_option autoImplicit false

namespace Hunter.Wake
open Effect

structure CycleSummary where
  kind : Option JobKind := none
  repo : Option Text := none
  findingId : Option Nat := none
  state : Option JobState := none
  error : Option Text := none
  skipped : Option Text := none
  denied : Option Text := none
  retryAt : Option Int := none
  outcome : Option Text := none
  inserted : Option Nat := none
  sync : Bool := false
  idle : Option Text := none

def CycleSummary.attempted (summary : CycleSummary) : Bool :=
  match summary.state with
  | some .done | some .killed | some .failed | some .suspended => true
  | _ => false

def describeCycle (summary : CycleSummary) : Text × Text :=
  match summary.error, summary.idle, summary.skipped, summary.denied with
  | some e, _, _, _ => ("error".toList, e.take 200)
  | none, some v, _, _ => ("idle".toList, v)
  | none, none, some v, _ => ("idle".toList, v)
  | none, none, none, some d => ("denied".toList, "last: ".toList ++ d)
  | none, none, none, none =>
    let kind := (summary.kind.map JobKind.asStr).getD []
    if summary.attempted && !kind.isEmpty then
      let target := match summary.findingId, summary.repo with
        | some fid, _ => '#' :: Text.nat fid
        | none, some repo => '(' :: repo ++ [')']
        | none, none => "(?)".toList
      let ending := match summary.outcome with
        | some o => " -> ".toList ++ o
        | none => if summary.state = some .done then []
            else ' ' :: (summary.state.map JobState.asStr).getD []
      ("idle".toList, "last: ".toList ++ kind ++ ' ' :: target ++ ending)
    else ("idle".toList, "cycle produced no actionable outcome".toList)

def prSyncIntervalS : ℚ := 300

/-- What the loop and the handlers share, and the process's lock file. -/
structure Scheduler where
  lock : Option Nat
  /-- A notification that no one has waited for yet. -/
  permit : Bool
  paused : Bool
  running : Bool
  overdrive : Bool
  shutdown : Bool
  /-- The shutdown was set since the loop last waited for it. -/
  unseen : Bool

def Scheduler.fresh : Scheduler where
  lock := none
  permit := false
  paused := false
  running := false
  overdrive := false
  shutdown := false
  unseen := false

/-- The writes of the handlers that wake the loop. -/
inductive Write
  | verdict | recheck | unqueue | budgetOverride | rehunt

inductive WakeCall : Type → Type
  | acquireLockfile : WakeCall (Except Text Unit)
  /-- The store, the clean-up and the checks before the loop. -/
  | startUp : WakeCall (Except Text Unit)
  | loadPaused : WakeCall Bool
  | storePaused (paused : Bool) : WakeCall Unit
  | storeOverdrive (enabled : Bool) : WakeCall Unit
  | loadRunning : WakeCall Bool
  | storeRunning (running : Bool) : WakeCall Unit
  /-- Reconcile, reap, sweep and `run_cycle`. -/
  | runCycle : WakeCall (Except Text CycleSummary)
  | countQueued : WakeCall Nat
  | countEnabledRepos : WakeCall Nat
  | time : WakeCall ℚ
  | nowMs : WakeCall Int
  | setSchedulerState (state detail : Text) (nextWake : Option Int) : WakeCall Unit
  /-- `select!` of a notification and the shutdown. -/
  | waitPaused : WakeCall Unit
  /-- `select!` of the sleep's end, a notification and the shutdown. -/
  | waitSleeping (sleepS : ℚ) : WakeCall Unit
  | loadShutdown : WakeCall Bool
  | storeShutdown : WakeCall Unit
  | write (w : Write) : WakeCall (Except Text Unit)
  | logUserEvent : WakeCall (Except Text Unit)
  | readBack : WakeCall (Except Text Unit)
  | notifyOne : WakeCall Unit
  | respond (status : Nat) : WakeCall Unit

abbrev WakeAct (α : Type) := Prog WakeCall Text α

inductive Task
  | daemon
  | loop
  | signal
  | post (w : Write) (wakes : Bool)
  | cycle
  | setPaused (paused : Bool)
  | setOverdrive (enabled : Bool)

/-- `retry_at` and a margin, between a minute and an hour. -/
def deniedSleep (retryAt : Option Int) : WakeAct ℚ :=
  match retryAt with
  | some at_ =>
    if 0 < at_ then do
      let now ← Prog.ask .time
      pure (max 60 (min 3600 (at_ / 1000 - now + 30)))
    else pure (30 * 60)
  | none => pure (30 * 60)

def attemptedSleep (inserted : Option Nat) : WakeAct ℚ := do
  let queued ← Prog.ask .countQueued
  let enabled ← Prog.ask .countEnabledRepos
  pure (if 0 < queued then 0 else if 0 < inserted.getD 0 then 5 else if 0 < enabled then 60
    else 15 * 60)

def endedSleep (summary : CycleSummary) : WakeAct ℚ :=
  if summary.error.isSome then pure (5 * 60)
  else if summary.attempted then attemptedSleep summary.inserted
  else if summary.denied.isSome then deniedSleep summary.retryAt
  else if summary.skipped.isSome then pure 0
  else pure (15 * 60)

/-- Pull requests are synced in time, unless the budget is out. -/
def computeSleepS (summary : CycleSummary) : WakeAct ℚ := do
  let sleepS ← endedSleep summary
  pure (if summary.sync && summary.denied.isNone then min sleepS prSyncIntervalS else sleepS)

/-- What is shown of a cycle's end, and the time until the next one. -/
def publish : Except Text CycleSummary → WakeAct ℚ
  | .ok summary => do
    let sleepS ← computeSleepS summary
    let (state, detail) := describeCycle summary
    let now ← Prog.ask .nowMs
    Prog.ask (.setSchedulerState state detail (some (now + castI64 (sleepS * 1000))))
    pure sleepS
  | .error e => do
    let now ← Prog.ask .nowMs
    Prog.ask (.setSchedulerState "error".toList (("daemon loop crashed: ".toList ++ e).take 200)
      (some (now + castI64 (5 * 60 * 1000))))
    pure (5 * 60)

def turnOver : WakeAct (Option Task) := do
  if ← Prog.ask .loadShutdown then pure none else pure (some .loop)

def loop : WakeAct (Option Task) := do
  if ← Prog.ask .loadPaused then
    Prog.ask (.setSchedulerState "paused".toList "scheduler paused by operator".toList none)
    Prog.ask .waitPaused
    turnOver
  else
    Prog.ask (.storeRunning true)
    let result ← Prog.ask .runCycle
    Prog.ask (.storeRunning false)
    let sleepS ← publish result
    Prog.ask (.waitSleeping sleepS)
    turnOver

/-- `run_daemon` up to its loop. -/
def daemon : WakeAct (Option Task) := do
  Prog.try_ .acquireLockfile
  Prog.try_ .startUp
  pure (some .loop)

def signal : WakeAct Unit := Prog.ask .storeShutdown

/-- `verdict`, `recheck`, `unqueue`, `override_` and `request_rehunt`, from their write on. -/
def post (w : Write) (wakes : Bool) : WakeAct Unit := do
  Prog.try_ (.write w)
  Prog.try_ .logUserEvent
  Prog.try_ .readBack
  if wakes then Prog.ask .notifyOne
  Prog.ask (.respond 200)

def verdict : WakeAct Unit := post .verdict true
def recheck : WakeAct Unit := post .recheck true
def unqueue : WakeAct Unit := post .unqueue true
def override (mode : Option BudgetOverride) : WakeAct Unit := post .budgetOverride mode.isSome
def requestRehunt : WakeAct Unit := post .rehunt true

def cycle : WakeAct Unit := do
  if ← Prog.ask .loadPaused then Prog.ask (.respond 409)
  else if ← Prog.ask .loadRunning then Prog.ask (.respond 409)
  else
    Prog.ask .notifyOne
    Prog.ask (.respond 202)

def switch (store : WakeCall Unit) : WakeAct Unit := do
  Prog.ask store
  Prog.ask .notifyOne
  Prog.ask (.respond 200)

def setSchedulerPaused (paused : Bool) : WakeAct Unit := switch (.storePaused paused)
def setSchedulerOverdrive (enabled : Bool) : WakeAct Unit := switch (.storeOverdrive enabled)

/-- What a wait takes: a notification, or the news of the shutdown. -/
def Scheduler.Woken (s s' : Scheduler) : Prop :=
  s.permit = true ∧ s' = { s with permit := false } ∨
    s.unseen = true ∧ s' = { s with unseen := false }

def WakeCall.Step (i : Nat) (s s' : Scheduler) : {β : Type} → WakeCall β → β → Prop
  | _, .acquireLockfile, b =>
    match b with
    | .ok () => s.lock = none ∧ s' = { s with lock := some i }
    | .error _ => s' = s
  | _, .loadPaused, b => b = s.paused ∧ s' = s
  | _, .storePaused paused, _ => s' = { s with paused := paused }
  | _, .storeOverdrive enabled, _ => s' = { s with overdrive := enabled }
  | _, .loadRunning, b => b = s.running ∧ s' = s
  | _, .storeRunning running, _ => s' = { s with running := running }
  | _, .waitPaused, _ => s.Woken s'
  | _, .waitSleeping _, _ => s' = s ∨ s.Woken s'
  | _, .loadShutdown, b => b = s.shutdown ∧ s' = s
  | _, .storeShutdown, _ => s' = { s with shutdown := true, unseen := true }
  | _, .notifyOne, _ => s' = { s with permit := true }
  | _, _, _ => s' = s

/-- Where a handler awaits, it may be dropped with its connection. -/
def WakeCall.awaits : {β : Type} → WakeCall β → Bool
  | _, .write _ | _, .logUserEvent | _, .readBack | _, .respond _ => true
  | _, _ => false

def body : Task → WakeAct (Option Task)
  | .daemon => daemon
  | .loop => loop
  | .signal => do signal; pure none
  | .post w wakes => do post w wakes; pure none
  | .cycle => do cycle; pure none
  | .setPaused paused => do setSchedulerPaused paused; pure none
  | .setOverdrive enabled => do setSchedulerOverdrive enabled; pure none

def process : Pool WakeCall Text Scheduler where
  Task := Task
  body := body
  init s := s = .fresh
  starts task _ := task ≠ .loop
  step i c s b s' := c.Step i s s' b
  leave _ _ s := s
  mayLeave _ p _ :=
    match p with
    | .call c _ => c.awaits = true
    | _ => True
  env s s' := s' = s
  restart _ _ := False

end Hunter.Wake
