import Hunter.Daemon
import Hunter.Effect.Replay
set_option autoImplicit false

namespace Hunter
open Effect

/-- How git, the forge, the worker and the clock answer during one phase; statements that
fail, and calls to stop before. -/
structure Outside where
  now : Int := 0
  anticipated : Int := 0
  rotation : Option (RepoJobKind × Nat) := none
  prompt : Except Text Unit := .ok ()
  run : RunResult :=
    { killedReason := none, exitCode := some 0, tokensNew := 1, sessionFile := none,
      stdoutTail := [] }
  findings : FindingsFile := .missing
  scan : Option DepScan := none
  verdict : VerdictFile := .missing
  report : Option FixReport := none
  committed : Bool := true
  pushed : Except Text Unit := .ok ()
  view : Except Text PrView := .error []
  withdraw : Option Text := none
  closure : Except CloseFailure CloseVerdict := .error ⟨[], []⟩
  ledger : Option (Text × Int) := none
  diff : GitDiff := .listed []
  tip : Text := []
  history : History := { before := ['b'], back := none }
  rehuntInterval : Int := 1
  fails : {β : Type} → StoreCall β → Bool := fun _ => false
  stops : {β : Type} → Call β → Bool := fun _ => false

namespace Outside

def answer (o : Outside) : {β : Type} → Query β → β
  | _, .now => o.now
  | _, .anticipatedTokens _ _ => o.anticipated
  | _, .sessionInWorkspace _ _ => true
  | _, .repoCloned _ => true
  | _, .syncRepo _ => .ok ()
  | _, .fetch _ _ => .ok ()
  | _, .fetchTip _ => .ok o.tip
  | _, .rehuntInterval => o.rehuntInterval
  | _, .priorFindings _ => .ok ()
  | _, .budgetGate _ _ => .ok BudgetDecision.approved
  | _, .diskGate => false
  | _, .treeInUse _ => false
  | _, .removeBlockedReport _ => .ok ()
  | _, .fixReport _ => .ok o.report
  | _, .fixCommits _ => { logged := true, committed := o.committed, described := true }
  | _, .push _ => o.pushed
  | _, .ownerRepo _ => .ok ()
  | _, .createPr _ _ _ => .ok ['u']
  | _, .verdictFile _ => o.verdict
  | _, .parsePrUrl _ => some 1
  | _, .viewPrSync _ _ => o.view
  | _, .viewPrEngage _ _ => o.view
  | _, .prDiff _ _ => .ok ()
  | _, .withdrawFile _ => o.withdraw
  | _, .closePr _ _ => .ok ()
  | _, .pushEngage _ _ _ => .ok false
  | _, .replyPr _ _ => .ok true
  | _, .closeReason _ => o.closure
  | _, .defaultTip _ => none
  | _, .followUps _ => FindingsFile.missing
  | _, .reconfirmed _ => []
  | _, .renovateScan _ => o.scan
  | _, .writeScan _ => .ok ()
  | _, .rotationPick => .ok o.rotation
  | _, .workspaceDirs => []
  | _, .removeClone _ => .ok ()
  | _, .removeNotes _ => .ok ()
  | _, .huntSummary _ _ _ => ()

def answerTree (o : Outside) (w : World) : {β : Type} → TreeCall β → β × World
  | _, .isDir origin => (w.trees.any fun t => t.origin = origin, w)
  | _, .create origin spec =>
    (.ok o.tip, { w with trees := { origin := origin, spec := spec } :: w.trees })
  | _, .release origin => ((), { w with trees := w.trees.filter fun t => t.origin ≠ origin })
  | _, .diffNames _ _ _ => (o.diff, w)
  | _, .history _ _ => (o.history, w)
  | _, .prompt _ _ => (o.prompt, w)
  | _, .runWorker _ _ _ => (.ok o.run, w)
  | _, .ledgerUsage _ => (o.ledger, w)
  | _, .findingsFile _ => (o.findings, w)

def answerCall (o : Outside) (w : World) : {β : Type} → Call β → β × World
  | _, .ask q => (o.answer q, w)
  | _, .store c =>
    if o.fails c || !c.keyed w.store then (.error [], w)
    else
      match c.apply w.store with
      | some (b, s) => (.ok b, { w with store := s })
      | none => (.error [], w)
  | _, .tree c => o.answerTree w c

theorem callStep (o : Outside) {β : Type} (c : Call β) (w : World) :
    CallStep c w (o.answerCall w c).1 (o.answerCall w c).2 := by
  cases c with
  | ask q => exact .ask q w _
  | store c =>
    simp only [answerCall]
    split
    · exact .storeError c w []
    · rename_i hpasses
      simp only [Bool.not_eq_true, Bool.or_eq_false_iff, Bool.not_eq_false'] at hpasses
      split
      · rename_i b s happly
        exact .store happly hpasses.2
      · exact .storeError c w []
  | tree c =>
    cases c with
    | isDir origin => exact .isDir origin w
    | create origin spec => exact .create origin spec w o.tip
    | release origin => exact .release origin w
    | _ => exact .read _ w _ rfl

def reply (o : Outside) : Machine.Reply Call World where
  answer c w := if o.stops c then none else some (o.answerCall w c)

theorem faithful_reply (o : Outside) : Machine.Faithful daemon o.reply := by
  intro β c w b w' h
  simp only [reply] at h
  split at h
  · cases h
  · have hstep := o.callStep c w
    rw [Option.some.inj h] at hstep
    exact hstep

end Outside

section
variable {σ : Type} {M : Machine Call Text σ}

def play (reply : Outside → Machine.Reply Call σ) (script : List Outside) (x : Config M) :
    Config M :=
  M.advanceAll (script.map reply) x

theorem closed_play {R : Config M → Prop} (hR : M.Closed R)
    {reply : Outside → Machine.Reply Call σ} (hreply : ∀ o, M.Faithful (reply o))
    {script : List Outside} {x : Config M} (h : R x) : R (play reply script x) := by
  refine hR.advanceAll (fun r hr => ?_) h
  obtain ⟨o, -, rfl⟩ := List.mem_map.1 hr
  exact hreply o

theorem reachable_play {reply : Outside → Machine.Reply Call σ}
    (hreply : ∀ o, M.Faithful (reply o)) {script : List Outside} {x : Config M}
    (h : M.Reachable x) : M.Reachable (play reply script x) :=
  closed_play Machine.closed_reachable hreply h

end

def playDaemon (script : List Outside) (x : Config daemon) : Config daemon :=
  play Outside.reply script x

theorem reachable_playDaemon {script : List Outside} {x : Config daemon}
    (h : daemon.Reachable x) : daemon.Reachable (playDaemon script x) :=
  reachable_play Outside.faithful_reply h

def requested {M : Machine Call Text World} (s : Store → Store) (x : Config M) : Config M :=
  ⟨x.rest, { x.state with store := s x.state.store }⟩

theorem rest_requested {M : Machine Call Text World} (s : Store → Store) (x : Config M) :
    (requested s x).rest = x.rest := rfl

theorem step_requested {x : Config daemon} {r : Request} {s : Store → Store}
    (hr : Accepts x.state.store r (s x.state.store)) : daemon.Step x (requested s x) :=
  .env (.request hr)

theorem reachable_requested {x : Config daemon} {r : Request} {s : Store → Store}
    (h : daemon.Reachable x) (hr : Accepts x.state.store r (s x.state.store)) :
    daemon.Reachable (requested s x) :=
  h.step (step_requested hr)

def requestedBeside {γ : Type} {M : Machine Call Text (World × γ)}
    (heard : World → World → γ → γ) (s : Store → Store) (x : Config M) : Config M :=
  let w := { x.state.1 with store := s x.state.1.store }
  ⟨x.rest, w, heard x.state.1 w x.state.2⟩

theorem reachable_requestedBeside {γ : Type} {M : Machine Call Text (World × γ)}
    {heard : World → World → γ → γ}
    (henv : ∀ w w' g, EnvStep w w' → M.env (w, g) (w', heard w w' g))
    {x : Config M} {r : Request} {s : Store → Store} (h : M.Reachable x)
    (hr : Accepts x.state.1.store r (s x.state.1.store)) :
    M.Reachable (requestedBeside heard s x) :=
  h.step (.env (henv _ _ _ (.request hr)))

def emptyWorld : World := { store := { repos := [], findings := [], jobs := [] }, trees := [] }

def sampleRepo : Repo := { name := ['r'], defaultBranch := ['m'] }

def repoWorld : World :=
  { store := { repos := [some sampleRepo], findings := [], jobs := [] }, trees := [] }

def sampleInsert : FindingInsert where
  fingerprint := []
  file := []
  symbol := none
  line := none
  severity := .low
  confidence := 1
  summary := ['a']
  detail := none
  evidencePlan := none
  ecosystem := none
  package := none
  currentVersion := none
  latestVersion := none
  updateType := none
  securityAdvisory := none

def cappedRun : RunResult where
  killedReason := some "cap".toList
  exitCode := none
  tokensNew := 1
  sessionFile := some ['s']
  stdoutTail := []

def endedView (state : PrPhase) : PrView where
  state := state
  headRef := none
  headSha := []
  updatedAt := 0
  comments := []
  reviews := []
  changesRequested := false
  conflicting := false
  failingChecks := []

def routine : Outside := {}

def mergedView : Outside := { view := .ok (endedView .merged) }

def hunting : Outside :=
  { rotation := some (.hunt, 0), findings := .entries [some (.bug, sampleInsert)] }

def scanning : Outside where
  rotation := some (.depUpdate, 0)
  scan := some { entries := [some (.depUpdate, sampleInsert)], proposed := [[]],
                 unchecked := [], moves := [] }

def addSampleRepo (s : Store) : Store := s.addRepo ['r'] ['m']

def booted : Config daemon :=
  requested addSampleRepo ⟨daemon.body daemon.boot, emptyWorld⟩

theorem reachable_booted : daemon.Reachable booted :=
  reachable_requested (r := .addRepo ['r'] ['m']) (.start rfl) .addRepo

def queueVerdict (s : Store) : Store := s.applyVerdict 0 .new .queued none

def queuedFinding : Config daemon :=
  requested queueVerdict (playDaemon (List.replicate 5 hunting) booted)

def unqueue (s : Store) : Store := (s.claimInProgress 0 .queued .new).1

theorem reachable_queuedFinding : daemon.Reachable queuedFinding :=
  reachable_requested (r := .verdict 0 .queued none) (reachable_playDaemon reachable_booted)
    (.verdict rfl rfl (by decide) (by decide))

def pausedFix : Config daemon :=
  playDaemon (List.replicate 4 { run := cappedRun, committed := false }) queuedFinding

theorem reachable_pausedFix : daemon.Reachable pausedFix :=
  reachable_playDaemon reachable_queuedFinding

def shippedFinding : Config daemon := playDaemon (List.replicate 4 routine) queuedFinding

theorem reachable_shippedFinding : daemon.Reachable shippedFinding :=
  reachable_playDaemon reachable_queuedFinding

end Hunter
