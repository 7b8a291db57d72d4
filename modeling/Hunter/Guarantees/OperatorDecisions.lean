import Hunter.Knowledge
import Hunter.Replay
set_option autoImplicit false

namespace Hunter
open Effect

/-! What an operator decides between the daemon's read of a finding and its next write. -/

/-- The findings an operator moved since the daemon last read or moved them. -/
abbrev Decided := Nat → Bool

def StoreCall.reads (f : Nat) : {β : Type} → StoreCall β → β → Bool
  | _, .getFinding g, b => g = f && b.any fun x => x.status.isHeld
  | _, .findingsWithStatus _, rows => rows.any fun row => row.id = f
  | _, .listResumableJobs, rows => rows.any fun row => row.val.findingId = some f
  | _, _, _ => false

def StoreCall.readsAnswer {β : Type} (f : Nat) (c : StoreCall β) (b : Except Text β) : Bool :=
  match b with
  | .ok b => c.reads f b
  | .error _ => false

def Call.reads (f : Nat) : {β : Type} → Call β → β → Bool
  | _, .store c, b => c.readsAnswer f b
  | _, _, _ => false

def World.sameStatus (w w' : World) (f : Nat) : Bool :=
  decide (w.store.statusOf (some f) = w'.store.statusOf (some f))

def Decided.seen {β : Type} (c : Call β) (w : World) (b : β) (w' : World) (d : Decided) : Decided :=
  fun f => d f && w.sameStatus w' f && !c.reads f b

def Decided.heard (w w' : World) (d : Decided) : Decided := fun f => d f || !w.sameStatus w' f

/-- The statuses of finding `f` a statement starts from. -/
def StoreCall.startsFrom (f : Nat) (status : FindingStatus) : {β : Type} → StoreCall β → Prop
  | _, .claimInProgress g source _ => g = f ∧ status = source
  | _, .blockFixJob g _ _ => g = f ∧ status = .queued
  | _, .recordClosedHarvest g _ _ _ _ => g = f ∧ status = .closed
  | _, .reopenSuppressed g _ => g = f ∧ status.isSuppressed
  | _, .refreshDepUpdate g _ => g = f ∧ status = .superseded
  | _, .supersedeUnproposedDepUpdates _ _ _ => status = .new
  | _, .handOverQueuedDepUpdates _ _ => status = .new ∨ status = .queued
  | _, _ => False

def Call.startsFrom (f : Nat) (status : FindingStatus) : {β : Type} → Call β → Prop
  | _, .store c => c.startsFrom f status
  | _, _ => False

def StoreCall.blocksInTime (s : Store) : {β : Type} → StoreCall β → Bool
  | _, .blockFixJob f _ _ =>
    (s.finding? f).any fun x => x.status = .queued || x.status = .fixing
  | _, _ => true

def StoreCall.blocksInTimeAnswer {β : Type} (s : Store) (c : StoreCall β) (b : Except Text β) :
    Bool :=
  match b with
  | .ok _ => c.blocksInTime s
  | .error _ => true

def Call.blocksInTime (w : World) : {β : Type} → Call β → β → Bool
  | _, .store c, b => c.blocksInTimeAnswer w.store b
  | _, _, _ => true

def advised : Machine Call Text (World × Decided) :=
  daemon.watch (fun _ => false) Decided.seen Decided.heard

def timely : Machine Call Text (World × Decided) :=
  advised.restrict (fun c s b _ => c.blocksInTime s.1 b = true) (fun _ _ => True)
    fun _ _ => True

/-- A finding known to be at a status of the daemon's own is not decided. -/
def Undecided (a : Memory) (s : World × Decided) : Prop :=
  ∀ f status, Fact.held f status ∈ a → s.2 f = false

section
variable {β : Type} {c : StoreCall β} {s s' : Store} {b : β} {f : Nat} {status : FindingStatus}

theorem claim_moves {target : FindingStatus} (hsource : status ≠ target)
    (h : (s.claimInProgress f status target).2 = true) :
    s.statusOf (some f) ≠ (s.claimInProgress f status target).1.statusOf (some f) := by
  unfold Store.claimInProgress Store.updateFindingIf at h ⊢
  split at h
  · rename_i hstatus
    rw [if_pos hstatus]
    cases hx : s.finding? f with
    | none =>
      rw [hx] at hstatus
      cases hstatus
    | some x =>
      rw [hx] at hstatus
      simpa [Store.statusOf, hx, of_decide_eq_true hstatus] using hsource
  · cases h

/-- The daemon learns a status of its own from a read, or by moving the finding there. -/
theorem learns_held {a : Memory} (h : c.apply s = some (b, s'))
    (hlearn : c.learns a b (.held f status)) :
    c.reads f b = true ∨ s.statusOf (some f) ≠ s'.statusOf (some f) := by
  cases c with
  | getFinding g =>
    obtain ⟨finding, rfl, hlearn | ⟨hheld, hlearn⟩ | ⟨-, hlearn⟩⟩ := hlearn
    · cases hlearn
    · cases hlearn
      exact Or.inl (by simp [StoreCall.reads, hheld])
    · cases hlearn
  | findingsWithStatus st =>
    obtain ⟨row, hrow, ⟨-, hlearn⟩ | ⟨-, hlearn⟩ | ⟨-, hlearn⟩⟩ := hlearn
    · cases hlearn
      exact Or.inl (List.any_eq_true.2 ⟨row, hrow, by simp⟩)
    · cases hlearn
    · split at hlearn <;> cases hlearn
  | listPendingHarvest =>
    obtain ⟨row, -, hlearn⟩ := hlearn
    cases hlearn
  | listResumableJobs =>
    obtain ⟨row, hrow, hlearn | hlearn | hlearn | ⟨file, -, hlearn⟩ | ⟨k, g, -, hg, hlearn⟩⟩ :=
      hlearn
    · cases hlearn
    · cases hlearn
    · cases hlearn
    · cases hlearn
    · cases k with
      | recheck | engage =>
        cases hlearn
        exact Or.inl (List.any_eq_true.2 ⟨row, hrow, by simp [hg]⟩)
      | _ => cases hlearn
  | claimInProgress g source target =>
    obtain ⟨hclaimed, rfl, rfl, hlearn⟩ := hlearn
    cases hlearn
    cases h
    exact Or.inr (claim_moves (by simp) hclaimed)
  | _ => simp_all [StoreCall.learns]

end

theorem undecided_seen {β : Type} {c : Call β} {w w' : World} {b : β} {d : Decided} {f : Nat}
    (h : d f = false) : Decided.seen c w b w' d f = false := by
  simp [Decided.seen, h]

theorem undecided_call {β : Type} {a : Memory} {c : Call β} {w w' : World} {b : β} {d : Decided}
    (hinv : Undecided a (w, d)) (h : CallStep c w b w') :
    Undecided (a.next c b) (w', Decided.seen c w b w' d) := by
  intro f status hheld
  rcases hheld with hheld | hlearn
  · exact undecided_seen (hinv f status hheld.1)
  · cases c with
    | ask q => exact hlearn.elim
    | tree c => cases TreeCall.learns_told hlearn
    | store c =>
      rcases h.leaves with ⟨b', s', rfl, happly, rfl⟩ | ⟨⟨e, rfl⟩, rfl⟩
      · rcases learns_held happly hlearn with hreads | hmoved
        · simp [Decided.seen, Call.reads, StoreCall.readsAnswer, hreads]
        · simp [Decided.seen, World.sameStatus, hmoved]
      · exact hlearn.elim

theorem sameStatus_of_held {w w' : World} {f : Nat} {status : FindingStatus}
    (h : (Fact.held f status).holds w.store) (h' : (Fact.held f status).holds w'.store) :
    w.sameStatus w' f = true := by
  obtain ⟨-, x, hx, hstatus⟩ := h
  obtain ⟨-, x', hx', hstatus'⟩ := h'
  simp [World.sameStatus, Store.statusOf, hx, hx', hstatus, hstatus']

theorem undecided_invariant :
    Machine.InvariantUnder timely ((follower.watch _ _ _).restrict _ _ _)
      (fun a s => Known a s.1) Undecided where
  init s hs f status hheld := hheld.elim
  call a c s b s' _ _ hinv hstep _ := by
    obtain ⟨w', d'⟩ := s'
    have hnotes : d' = Decided.seen c s.1 b w' s.2 := hstep.1.2
    rw [hnotes]
    exact undecided_call hinv hstep.1.1
  finish a phase s hready _ hinv f status hheld :=
    hinv f status ((hready.2 _ hheld).resolve_left (by simp))
  abort a s _ _ _ f status hheld := hheld.elim
  crash a p s _ _ _ _ f status hheld := hheld.elim
  env a s s' hknown hinv henv f status hheld := by
    obtain ⟨w', d'⟩ := s'
    obtain ⟨⟨henv, hnotes⟩, -⟩ := henv
    have hbefore := hknown.facts _ hheld
    have hafter : (Fact.held f status).holds w'.store := by
      change EnvStep s.1 w' at henv
      cases henv with
      | treeLost => exact hbefore
      | request haccept => exact Fact.holds_request haccept hknown.descends hbefore
    change d' f = false
    rw [show d' = Decided.heard s.1 w' s.2 from hnotes]
    simp [Decided.heard, hinv f status hheld, sameStatus_of_held hbefore hafter]

theorem startsFrom_of_moves {β : Type} {c : StoreCall β} {a : Memory} {s : Store} {f : Nat}
    {x : Finding} {target : FindingStatus} (hallow : c.allowed a) (hknown : ∀ y ∈ a, y.holds s)
    (hx : s.finding? f = some x) (hunheld : ∀ status, Fact.held f status ∉ a)
    (htimely : c.blocksInTime s = true) (hmoves : c.moves f x.status target) :
    c.startsFrom f x.status := by
  cases c with
  | setFindingStatus g status =>
    obtain ⟨rfl, rfl⟩ := hmoves
    cases target with
    | new | merged => exact (hunheld _ hallow).elim
    | queued => exact (hallow.elim (hunheld _) fun h => hunheld _ h.1).elim
    | _ => exact hallow.elim
  | setAnchoredVerdict =>
    obtain ⟨rfl, -⟩ := hmoves
    rcases hallow.2 with h | h | h
    · exact (hunheld _ h).elim
    · exact (hunheld _ h).elim
    · exact (hunheld _ h.2.1).elim
  | setFindingPrOpen =>
    obtain ⟨rfl, -⟩ := hmoves
    exact (hunheld _ hallow).elim
  | blockFixJob =>
    obtain ⟨rfl, -⟩ := hmoves
    rcases hallow.2.1 with h | h
    · exact (hunheld _ h).elim
    · obtain ⟨y, hy, hunclaimed⟩ := hknown _ h
      cases hx.symm.trans hy
      simp only [StoreCall.blocksInTime, hx, Option.any_some, Bool.or_eq_true,
        decide_eq_true_eq] at htimely
      refine ⟨rfl, htimely.resolve_right fun hfixing => ?_⟩
      rw [hfixing] at hunclaimed
      cases hunclaimed
  | claimInProgress => exact ⟨hmoves.1, hmoves.2.1⟩
  | recordClosedHarvest | reopenSuppressed | refreshDepUpdate => exact ⟨hmoves.1, hmoves.2.1⟩
  | supersedeUnproposedDepUpdates | handOverQueuedDepUpdates => exact hmoves.1
  | _ => exact hmoves.elim

/-- A finding an operator moved since the daemon last read or moved it keeps its status, or is
moved on by a statement that starts from it. -/
theorem operatorDecision_kept {β : Type} {c : Call β} {k : β → Act Phase}
    {s s' : World × Decided} {b : β} {f : Nat} {status : FindingStatus}
    (hx : timely.Reachable ⟨.call c k, s⟩) (hstep : timely.step c s b s')
    (hdecided : s.2 f = true) (hstatus : s.1.store.statusOf (some f) = some status) :
    s'.1.store.statusOf (some f) = some status ∨ c.startsFrom f status := by
  obtain ⟨a, hallow, hknown, hinv⟩ :=
    Machine.Invariant.allowed (((known_invariant.watch _ _ _).restrict _ _ _).and
      undecided_invariant) hx
  have hunheld : ∀ status, Fact.held f status ∉ a := fun status hheld => by
    rw [hinv f status hheld] at hdecided
    cases hdecided
  have hcall : CallStep c s.1 b s'.1 := hstep.1.1
  have htimely : c.blocksInTime s.1 b = true := hstep.2
  cases c with
  | ask q =>
    rw [show s'.1 = s.1 from hcall.leaves]
    exact Or.inl hstatus
  | tree c =>
    rw [show s'.1.store = s.1.store from hcall.leaves]
    exact Or.inl hstatus
  | store c =>
    rcases hcall.leaves with ⟨b', t, rfl, happly, hs'⟩ | ⟨-, hs'⟩
    · obtain ⟨x, hx, rfl⟩ := Option.map_eq_some_iff.1 hstatus
      obtain ⟨x', hx', hchange⟩ := StoreCall.edits happly f x hx
      rcases hchange.status with hsame | hmoves
      · refine Or.inl ?_
        rw [hs', ← hsame]
        exact Option.map_eq_some_iff.2 ⟨x', hx', rfl⟩
      · exact Or.inr (startsFrom_of_moves hallow hknown.facts hx hunheld htimely hmoves)
    · rw [hs']
      exact Or.inl hstatus

def isClaim : {β : Type} → Call β → Bool
  | _, .store (.claimInProgress _ _ _) => true
  | _, _ => false

def timelyReply (o : Outside) : Machine.Reply Call (World × Decided) :=
  (o.reply.watch Decided.seen).within fun c s b _ => c.blocksInTime s.1 b

theorem faithful_timelyReply (o : Outside) : timely.Faithful (timelyReply o) :=
  Machine.Faithful.within (Machine.Faithful.watch o.faithful_reply) fun _ _ _ _ h => h

theorem reachable_timelyRequested {x : Config timely} {r : Request} {s : Store → Store}
    (h : timely.Reachable x) (hr : Accepts x.state.1.store r (s x.state.1.store)) :
    timely.Reachable (requestedBeside Decided.heard s x) := by
  have henv : ∀ w w' d, EnvStep w w' → timely.env (w, d) (w', Decided.heard w w' d) :=
    fun w w' d henv => ⟨⟨henv, rfl⟩, trivial⟩
  exact reachable_requestedBeside henv h hr

def timelyQueued : Config timely :=
  requestedBeside Decided.heard queueVerdict (play timelyReply (List.replicate 5 hunting)
    (requestedBeside Decided.heard addSampleRepo
      ⟨timely.body timely.boot, emptyWorld, fun _ => false⟩))

theorem reachable_timelyQueued : timely.Reachable timelyQueued :=
  reachable_timelyRequested (r := .verdict 0 .queued none)
    (reachable_play faithful_timelyReply
      (reachable_timelyRequested (r := .addRepo ['r'] ['m']) (.start ⟨rfl, rfl⟩) .addRepo))
    (.verdict rfl rfl (by decide) (by decide))

/-- A finding picked for its fix and taken back by an operator before the claim. -/
def unqueuedPick : Config timely :=
  requestedBeside Decided.heard unqueue
    (play timelyReply (List.replicate 5 { routine with stops := isClaim }) timelyQueued)

theorem reachable_unqueuedPick : timely.Reachable unqueuedPick :=
  reachable_timelyRequested (r := .unqueue 0)
    (reachable_play faithful_timelyReply reachable_timelyQueued) .unqueue

/-- The claim finds the finding as the operator left it. -/
theorem operatorDecision_kept_unqueued : ∃ claim : Call (Except Text Bool),
    unqueuedPick.state.1.store.statusOf (some 0) = some .new ∧
      ((routine.answerCall unqueuedPick.state.1 claim).2.store.statusOf (some 0) = some .new ∨
        claim.startsFrom 0 .new) := by
  have hnext : Machine.nextIs isClaim unqueuedPick.rest = true := by decide +kernel
  have hnew : unqueuedPick.state.1.store.statusOf (some 0) = some .new := by decide +kernel
  have hdecided : unqueuedPick.state.2 0 = true := by decide +kernel
  have hreachable := reachable_unqueuedPick
  generalize unqueuedPick = x at *
  obtain ⟨rest, w, d⟩ := x
  obtain ⟨β, c, k, rfl, hclaim⟩ := Machine.exists_next hnext
  cases c with
  | ask q => cases hclaim
  | tree c => cases hclaim
  | store c =>
    cases c with
    | claimInProgress f source target =>
      have hstep : timely.step (.store (.claimInProgress f source target)) (w, d)
          (routine.answerCall w (.store (.claimInProgress f source target))).1
          ((routine.answerCall w (.store (.claimInProgress f source target))).2,
            Decided.seen _ w _ _ d) := ⟨⟨routine.callStep _ w, rfl⟩, rfl⟩
      exact ⟨_, hnew, operatorDecision_kept hreachable hstep hdecided hnew⟩
    | _ => cases hclaim

def isBlock : {β : Type} → Call β → Bool
  | _, .store (.blockFixJob _ _ _) => true
  | _, _ => false

def cappedFix : Outside :=
  { anticipated := 1, run := { cappedRun with tokensNew := 9 }, committed := false }

/-- The third chain given up in a row, about to block its finding. -/
def givenUpThrice : Config daemon :=
  playDaemon (List.replicate 27 { cappedFix with stops := isBlock }) queuedFinding

theorem reachable_givenUpThrice : daemon.Reachable givenUpThrice :=
  reachable_playDaemon reachable_queuedFinding

def lateBlock : Config daemon := requested unqueue givenUpThrice

def blocksUnqueued (s : Store) : {β : Type} → Call β → Bool
  | _, .store (.blockFixJob f id reason) => f = 0 &&
    (s.blockFixJob f id reason).any fun s' => s'.statusOf (some 0) = some .blocked
  | _, _ => false

/-- A chain given up blocks a finding that an operator has just taken off the queue. -/
theorem operatorDecision_overwritten : ¬ ∀ (β : Type) (c : Call β) (k : β → Act Phase)
    (s s' : World × Decided) (b : β) (f : Nat) (status : FindingStatus),
    advised.Reachable ⟨.call c k, s⟩ → advised.step c s b s' → s.2 f = true →
    s.1.store.statusOf (some f) = some status →
    s'.1.store.statusOf (some f) = some status ∨ c.startsFrom f status := by
  intro h
  obtain ⟨hnext, hnew, hmoved⟩ :
      Machine.nextIs (blocksUnqueued lateBlock.state.store) lateBlock.rest = true ∧
        lateBlock.state.store.statusOf (some 0) = some .new ∧
        givenUpThrice.state.sameStatus lateBlock.state 0 = false := by
    decide +kernel
  obtain ⟨notes, hgiven⟩ := reachable_givenUpThrice.watch (fun _ => false)
    Decided.seen Decided.heard
  have henv : EnvStep givenUpThrice.state lateBlock.state := .request (r := .unqueue 0) .unqueue
  have hlate := hgiven.heard henv
  rw [← rest_requested unqueue] at hlate
  have hdecided : Decided.heard givenUpThrice.state lateBlock.state notes 0 = true := by
    simp [Decided.heard, hmoved]
  change advised.Reachable ⟨lateBlock.rest, lateBlock.state, _⟩ at hlate
  generalize Decided.heard givenUpThrice.state lateBlock.state notes = d at hlate hdecided
  clear hmoved henv
  generalize lateBlock = x at *
  obtain ⟨rest, w⟩ := x
  obtain ⟨β, c, k, rfl, hblocks⟩ := Machine.exists_next hnext
  cases c with
  | ask q => cases hblocks
  | tree c => cases hblocks
  | store c =>
    cases c with
    | blockFixJob f id reason =>
      simp only [blocksUnqueued, Bool.and_eq_true, decide_eq_true_eq, Option.any_eq_true] at hblocks
      obtain ⟨rfl, t, hblock, hblocked⟩ := hblocks
      have happly : (StoreCall.blockFixJob 0 id reason).apply w.store = some ((), t) := by
        simp [StoreCall.apply, hblock]
      have hkept := h _ _ k (w, d) ({ w with store := t }, Decided.seen _ w _ _ d) _ 0 .new hlate
        ⟨.store happly rfl, rfl⟩ hdecided hnew
      rcases hkept with hkept | ⟨-, hqueued⟩
      · cases hblocked.symm.trans hkept
      · cases hqueued
    | _ => cases hblocks

end Hunter
