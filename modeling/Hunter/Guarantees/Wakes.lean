import Hunter.Server.Wake
set_option autoImplicit false

namespace Hunter.Wake
open Effect
open Function (update)

/-! No wake-up of the loop is lost, and a pause and a shutdown stop it. -/

inductive Stage
  | off | top | pausing | starting | cycling | resting | woken | over
  deriving DecidableEq

/-- The loop's stage and how often it has looked whether to pause; at how many looks each thread's
change landed and its notification was given, and what it stored of the pause; the cycles begun
since the last pause, and since the shutdown. -/
structure Notes where
  stage : Stage
  looks : Nat
  landed : Nat → Option Nat
  told : Nat → Option Nat
  stored : Nat → Option Bool
  sincePause : Nat
  sinceShutdown : Nat

def Notes.empty : Notes where
  stage := .off
  looks := 0
  landed _ := none
  told _ := none
  stored _ := none
  sincePause := 0
  sinceShutdown := 0

def Notes.land (notes : Notes) (i : Nat) : Notes :=
  { notes with landed := update notes.landed i (some notes.looks) }

def WakeCall.seen (i : Nat) (s : Scheduler) (notes : Notes) : {β : Type} → WakeCall β → β → Notes
  | _, .acquireLockfile, b =>
    match b with
    | .ok () => { notes with stage := .top }
    | .error _ => notes
  | _, .loadPaused, b =>
    if s.lock = some i then
      { notes with stage := if b then .pausing else .starting, looks := notes.looks + 1 }
    else notes
  | _, .storePaused paused, _ =>
    { notes.land i with
      stored := update notes.stored i (some paused)
      sincePause := if s.paused then notes.sincePause else 0 }
  | _, .storeOverdrive _, _ => notes.land i
  | _, .storeRunning true, _ =>
    { notes with
      stage := .cycling
      sincePause := notes.sincePause + 1
      sinceShutdown := if s.shutdown then notes.sinceShutdown + 1 else notes.sinceShutdown }
  | _, .storeRunning false, _ => { notes with stage := .resting }
  | _, .waitPaused, _ | _, .waitSleeping _, _ => { notes with stage := .woken }
  | _, .loadShutdown, b => { notes with stage := if b then .over else .top }
  | _, .write _, b =>
    match b with
    | .ok () => notes.land i
    | .error _ => notes
  | _, .notifyOne, _ => { notes with told := update notes.told i (some notes.looks) }
  | _, _, _ => notes

def watched : Pool WakeCall Text (Scheduler × Notes) :=
  process.watch Notes.empty fun i c s b _ notes => c.seen i s notes b

/-- Where a thread is: in the loop, or in a request. -/
inductive Place
  | loop (stage : Stage)
  | fresh
  | landed
  | switched
  | told
  deriving DecidableEq

def WakeCall.allowed (a : Place) : {β : Type} → WakeCall β → Prop
  | _, .acquireLockfile | _, .storePaused _ | _, .storeOverdrive _ | _, .write _ => a = .fresh
  | _, .loadPaused => a = .loop .top ∨ a = .fresh
  | _, .storeRunning running => a = .loop (if running then .starting else .cycling)
  | _, .waitPaused => a = .loop .pausing
  | _, .waitSleeping sleepS => a = .loop .resting ∧ 0 ≤ sleepS ∧ sleepS ≤ 3600
  | _, .loadShutdown => a = .loop .woken
  | _, .runCycle => a = .loop .cycling
  | _, .notifyOne => a = .fresh ∨ a = .landed ∨ a = .switched
  | _, _ => a ≠ .switched

def WakeCall.moves (a : Place) : {β : Type} → WakeCall β → β → Place
  | _, .acquireLockfile, b =>
    match b with
    | .ok () => .loop .top
    | .error _ => a
  | _, .loadPaused, b =>
    match a with
    | .loop _ => .loop (if b then .pausing else .starting)
    | a => a
  | _, .storePaused _, _ | _, .storeOverdrive _, _ => .switched
  | _, .storeRunning running, _ => .loop (if running then .cycling else .resting)
  | _, .waitPaused, _ | _, .waitSleeping _, _ => .loop .woken
  | _, .loadShutdown, b => .loop (if b then .over else .top)
  | _, .write _, b =>
    match b with
    | .ok () => .landed
    | .error _ => a
  | _, .notifyOne, _ => .told
  | _, _, _ => a

def protocol : Protocol WakeCall Place where
  allows a c := c.allowed a
  answers _ _ := True
  next a c b := c.moves a b

section
variable {α : Type} {a : Place} {stage : Stage}

theorem follows_ask {c : WakeCall α} {Q : Except Text α → Place → Prop} :
    Follows protocol a (Prog.ask c) Q ↔ c.allowed a ∧ ∀ b, Q (.ok b) (c.moves a b) :=
  and_congr_right fun _ => forall_congr' fun _ => ⟨fun h => h trivial, fun h _ => h⟩

theorem follows_try {c : WakeCall (Except Text α)} {Q : Except Text α → Place → Prop} :
    Follows protocol a (Prog.try_ c) Q ↔ c.allowed a ∧ (∀ x, Q (.ok x) (c.moves a (.ok x))) ∧
      ∀ e, Q (.error e) (c.moves a (.error e)) := by
  refine and_congr_right fun _ => ⟨fun h => ⟨fun x => h (.ok x) trivial, fun e =>
    h (.error e) trivial⟩, fun h b _ => ?_⟩
  cases b with
  | ok x => exact h.1 x
  | error e => exact h.2 e

/-- A program that stays where it is, and ends in `Q`. -/
abbrev Stays (a : Place) (p : WakeAct α) (Q : α → Prop) : Prop :=
  Follows protocol a p fun r a' => a' = a ∧ ∀ x, r = .ok x → Q x

def Bounded (sleepS : ℚ) : Prop := 0 ≤ sleepS ∧ sleepS ≤ 3600

theorem stays_pure {x : α} {Q : α → Prop} (h : Q x) : Stays a (pure x) Q :=
  ⟨rfl, fun _ hx => by cases hx; exact h⟩

theorem stays_ask {c : WakeCall α} {Q : α → Prop} (hc : c.allowed a) (hstay : ∀ b, c.moves a b = a)
    (h : ∀ b, Q b) : Stays a (Prog.ask c) Q :=
  follows_ask.2 ⟨hc, fun b => ⟨hstay b, fun _ hx => by cases hx; exact h b⟩⟩

theorem stays_bind {β : Type} {p : WakeAct α} {f : α → WakeAct β} {Q : α → Prop} {R : β → Prop}
    (hp : Stays a p Q) (hf : ∀ x, Q x → Stays a (f x) R) : Stays a (p >>= f) R := by
  refine follows_bind.2 (hp.mono fun r a' h => ?_)
  obtain ⟨rfl, h⟩ := h
  cases r with
  | ok x => exact hf x (h x rfl)
  | error e => exact ⟨rfl, nofun⟩

theorem stays_deniedSleep {retryAt : Option Int} :
    Stays (.loop stage) (deniedSleep retryAt) Bounded := by
  have half : Bounded (30 * 60) := by norm_num [Bounded]
  cases retryAt with
  | none => exact stays_pure half
  | some t =>
    unfold deniedSleep
    dsimp only
    split
    · refine stays_bind (stays_ask (Q := fun _ => True) nofun (fun _ => rfl) fun _ => trivial)
        fun now _ => stays_pure ⟨?_, ?_⟩
      · exact le_max_of_le_left (by norm_num)
      · exact max_le (by norm_num) (min_le_left _ _)
    · exact stays_pure half

theorem stays_attemptedSleep {inserted : Option Nat} :
    Stays (.loop stage) (attemptedSleep inserted) Bounded := by
  refine stays_bind (stays_ask (Q := fun _ => True) nofun (fun _ => rfl) fun _ => trivial)
    fun queued _ => ?_
  refine stays_bind (stays_ask (Q := fun _ => True) nofun (fun _ => rfl) fun _ => trivial)
    fun enabled _ => stays_pure ?_
  split_ifs <;> norm_num [Bounded]

theorem stays_endedSleep {summary : CycleSummary} :
    Stays (.loop stage) (endedSleep summary) Bounded := by
  unfold endedSleep
  split_ifs
  · exact stays_pure (by norm_num [Bounded])
  · exact stays_attemptedSleep
  · exact stays_deniedSleep
  · exact stays_pure (by norm_num [Bounded])
  · exact stays_pure (by norm_num [Bounded])

theorem stays_computeSleepS {summary : CycleSummary} :
    Stays (.loop stage) (computeSleepS summary) Bounded := by
  refine stays_bind stays_endedSleep fun sleepS hsleep => stays_pure ?_
  split_ifs
  · exact ⟨le_min hsleep.1 (by norm_num [prSyncIntervalS]), (min_le_left _ _).trans hsleep.2⟩
  · exact hsleep

theorem stays_publish {result : Except Text CycleSummary} :
    Stays (.loop stage) (publish result) Bounded := by
  have hquiet : ∀ {β : Type} (c : WakeCall β), c.allowed (.loop stage) →
      (∀ b, c.moves (.loop stage) b = .loop stage) →
      Stays (.loop stage) (Prog.ask c) fun _ => True :=
    fun c hc hstay => stays_ask hc hstay fun _ => trivial
  cases result with
  | error e =>
    refine stays_bind (hquiet .nowMs nofun fun _ => rfl) fun now _ => ?_
    refine stays_bind (hquiet _ nofun fun _ => rfl) fun _ _ => stays_pure ?_
    norm_num [Bounded]
  | ok summary =>
    refine stays_bind stays_computeSleepS fun sleepS hsleep => ?_
    refine stays_bind (hquiet .nowMs nofun fun _ => rfl) fun now _ => ?_
    exact stays_bind (hquiet _ nofun fun _ => rfl) fun _ _ => stays_pure hsleep

def ready (a : Place) (task : Task) : Prop := task = .loop ∧ a = .loop .top

/-- How a thread may end: where it goes on, it does with the loop, and never in between a switch
and its notification. -/
abbrev Ends : Except Text (Option Task) → Place → Prop :=
  Pool.Ending (M := watched) ready fun a => a ≠ .switched

theorem follows_turnOver : Follows protocol (.loop .woken) turnOver Ends := by
  refine follows_bind.2 (follows_ask.2 ⟨rfl, fun b => ?_⟩)
  cases b
  · exact ⟨rfl, rfl⟩
  · exact nofun

theorem follows_loop : Follows protocol (.loop .top) loop Ends := by
  refine follows_bind.2 (follows_ask.2 ⟨Or.inl rfl, fun b => ?_⟩)
  cases b with
  | true =>
    refine follows_bind.2 (follows_ask.2 ⟨nofun, fun _ => ?_⟩)
    exact follows_bind.2 (follows_ask.2 ⟨rfl, fun _ => follows_turnOver⟩)
  | false =>
    refine follows_bind.2 (follows_ask.2 ⟨rfl, fun _ => ?_⟩)
    refine follows_bind.2 (follows_ask.2 ⟨rfl, fun result => ?_⟩)
    refine follows_bind.2 (follows_ask.2 ⟨rfl, fun _ => ?_⟩)
    refine follows_bind.2 (stays_publish.mono fun r a' h => ?_)
    obtain ⟨rfl, h⟩ := h
    cases r with
    | error e => exact nofun
    | ok sleepS =>
      exact follows_bind.2 (follows_ask.2 ⟨⟨rfl, h sleepS rfl⟩, fun _ => follows_turnOver⟩)

theorem follows_daemon : Follows protocol .fresh daemon Ends := by
  refine follows_bind.2 (follows_try.2 ⟨rfl, fun _ => ?_, fun _ => nofun⟩)
  refine follows_bind.2 (follows_try.2 ⟨nofun, fun _ => ?_, fun _ => nofun⟩)
  exact ⟨rfl, rfl⟩

/-- A request's end. -/
abbrev Answered (_ : Except Text Unit) (a : Place) : Prop := a ≠ .switched

theorem follows_post {w : Write} {wakes : Bool} :
    Follows protocol .fresh (post w wakes) Answered := by
  refine follows_bind.2 (follows_try.2 ⟨rfl, fun _ => ?_, fun _ => nofun⟩)
  refine follows_bind.2 (follows_try.2 ⟨nofun, fun _ => ?_, fun _ => nofun⟩)
  refine follows_bind.2 (follows_try.2 ⟨nofun, fun _ => ?_, fun _ => nofun⟩)
  cases wakes with
  | false => exact follows_ask.2 ⟨nofun, fun _ => nofun⟩
  | true =>
    refine follows_bind.2 (follows_ask.2 ⟨Or.inr (Or.inl rfl), fun _ => ?_⟩)
    exact follows_ask.2 ⟨nofun, fun _ => nofun⟩

theorem follows_cycle : Follows protocol .fresh cycle Answered := by
  have hrespond : ∀ a status, a ≠ .switched →
      Follows protocol a (Prog.ask (.respond status) : WakeAct Unit) Answered :=
    fun _ _ ha => follows_ask.2 ⟨ha, fun _ => ha⟩
  refine follows_bind.2 (follows_ask.2 ⟨Or.inr rfl, fun paused => ?_⟩)
  cases paused with
  | true => exact hrespond _ _ nofun
  | false =>
    refine follows_bind.2 (follows_ask.2 ⟨nofun, fun running => ?_⟩)
    cases running with
    | true => exact hrespond _ _ nofun
    | false => exact follows_bind.2 (follows_ask.2 ⟨Or.inl rfl, fun _ => hrespond _ _ nofun⟩)

theorem follows_switch {c : WakeCall Unit} (hc : c.allowed .fresh)
    (hmoves : ∀ b, c.moves .fresh b = .switched) :
    Follows protocol .fresh (switch c) Answered := by
  refine follows_bind.2 (follows_ask.2 ⟨hc, fun b => ?_⟩)
  rw [hmoves]
  refine follows_bind.2 (follows_ask.2 ⟨Or.inr (Or.inr rfl), fun _ => ?_⟩)
  exact follows_ask.2 ⟨nofun, fun _ => nofun⟩

def entry : Task → Place
  | .loop => .loop .top
  | _ => .fresh

theorem follows_body (task : Task) : Follows protocol (entry task)
    (body task) Ends := by
  have hend : ∀ {p : WakeAct Unit}, Follows protocol .fresh p Answered →
      Follows protocol .fresh (p >>= fun _ => (pure none : WakeAct (Option Task))) Ends := by
    refine fun h => follows_bind.2 (h.mono fun r _ ha => ?_)
    cases r <;> exact ha
  cases task with
  | daemon => exact follows_daemon
  | loop => exact follows_loop
  | signal => exact hend (follows_ask.2 ⟨nofun, fun _ => nofun⟩)
  | post w wakes => exact hend follows_post
  | cycle => exact hend follows_cycle
  | setPaused paused => exact hend (follows_switch rfl fun _ => rfl)
  | setOverdrive enabled => exact hend (follows_switch rfl fun _ => rfl)

end

namespace Stage

/-- The loop has looked whether to pause, and has not waited since. -/
def looked : Stage → Bool
  | pausing | starting | cycling | resting => true
  | _ => false

def ahead : Stage → Bool
  | off | top | pausing | starting => true
  | _ => false

end Stage

structure Sound (n : Nat) (x : Scheduler × Notes) : Prop where
  newer : ∀ i, n ≤ i → x.1.lock ≠ some i ∧ x.2.landed i = none ∧ x.2.told i = none ∧
    x.2.stored i = none
  off : x.1.lock = none → x.2.stage = .off
  landed : ∀ i l, x.2.landed i = some l → l ≤ x.2.looks
  told : ∀ i k, x.2.told i = some k → k ≤ x.2.looks ∧ ∀ l, x.2.landed i = some l → l ≤ k
  heard : x.2.stage.looked = true → x.1.permit = false → ∀ i k, x.2.told i = some k → k < x.2.looks
  resumed : x.2.stage = .pausing → x.1.paused = false → x.1.permit = false →
    ∃ i, x.2.stored i = some false ∧ x.2.landed i = some x.2.looks ∧ x.2.told i = none
  running : x.1.running = decide (x.2.stage = .cycling)
  stopping : x.1.shutdown = true → x.2.stage ≠ .woken → x.2.stage ≠ .over → x.1.unseen = true
  going : x.1.shutdown = false → x.2.sinceShutdown = 0
  last : x.2.sinceShutdown ≤ 1 ∧ (x.2.stage.ahead = true → x.2.sinceShutdown = 0)
  paused : x.1.paused = true →
    x.2.sincePause ≤ 1 ∧ (x.2.stage = .starting → x.2.sincePause = 0)

/-- What a thread at a place relies on: that it stored nothing of the pause, or has notified. -/
def Place.holds (i : Nat) (x : Scheduler × Notes) : Place → Prop
  | .loop stage => x.1.lock = some i ∧ x.2.stage = stage ∧ x.2.stored i = none
  | .fresh => x.1.lock ≠ some i ∧ x.2.landed i = none ∧ x.2.told i = none ∧ x.2.stored i = none
  | .landed => x.1.lock ≠ some i ∧ x.2.told i = none ∧ x.2.stored i = none
  | .switched => x.1.lock ≠ some i ∧ x.2.told i = none
  | .told => x.1.lock ≠ some i ∧ (x.2.told i).isSome

section
variable {n i : Nat} {s s' : Scheduler} {notes : Notes} {a : Place} {β : Type} {c : WakeCall β}
  {b : β}

theorem update_some {f : Nat → Option Nat} {j k l : Nat} (h : update f i (some k) j = some l) :
    j = i ∧ l = k ∨ j ≠ i ∧ f j = some l := by
  by_cases hj : j = i
  · subst hj
    rw [Function.update_self] at h
    exact Or.inl ⟨rfl, (Option.some.inj h).symm⟩
  · rw [Function.update_of_ne hj] at h
    exact Or.inr ⟨hj, h⟩

theorem Sound.land (h : Sound n (s, notes)) (hlt : i < n) (hat : Place.fresh.holds i (s, notes)) :
    Sound n (s, notes.land i) :=
  { h with
    newer := fun j hj => by
      have hne : j ≠ i := by omega
      simpa only [Notes.land, Function.update_of_ne hne] using h.newer j hj
    landed := fun j l hl => by
      rcases update_some hl with ⟨-, rfl⟩ | ⟨-, hl⟩
      · exact le_refl _
      · exact h.landed j l hl
    told := fun j k hk => by
      refine ⟨(h.told j k hk).1, fun l hl => ?_⟩
      rcases update_some hl with ⟨rfl, -⟩ | ⟨-, hl⟩
      · cases hat.2.2.1.symm.trans hk
      · exact (h.told j k hk).2 l hl
    resumed := fun hstage hpaused hpermit => by
      obtain ⟨j, hstored, hj, htold⟩ := h.resumed hstage hpaused hpermit
      refine ⟨j, hstored, ?_, htold⟩
      by_cases hne : j = i
      · rw [hne]
        exact Function.update_self _ _ _
      · exact (Function.update_of_ne hne _ _).trans hj }

theorem sound_tell (h : Sound n (s, notes)) (hlt : i < n) : Sound n ({ s with permit := true },
    { notes with told := update notes.told i (some notes.looks) }) :=
  { h with
    newer := fun j hj => by
      have hne : j ≠ i := by omega
      simpa only [Function.update_of_ne hne] using h.newer j hj
    told := fun j k hk => by
      rcases update_some hk with ⟨rfl, rfl⟩ | ⟨-, hk⟩
      · exact ⟨le_refl _, h.landed _⟩
      · exact h.told j k hk
    heard := fun _ hpermit => nomatch hpermit
    resumed := fun _ _ hpermit => nomatch hpermit }

theorem sound_look (h : Sound n (s, notes)) (hstage : notes.stage = .top)
    (hlock : s.lock = some i) : Sound n (s, { notes with
      stage := if s.paused then .pausing else .starting, looks := notes.looks + 1 }) where
  newer := h.newer
  off hoff := by cases hlock.symm.trans hoff
  landed j l hl := (h.landed j l hl).trans (Nat.le_succ _)
  told j k hk := ⟨(h.told j k hk).1.trans (Nat.le_succ _), (h.told j k hk).2⟩
  heard _ _ j k hk := Nat.lt_succ_of_le (h.told j k hk).1
  resumed hpausing hpaused := by
    have hpaused : s.paused = false := hpaused
    simp [hpaused] at hpausing
  running := by
    rw [show s.running = _ from h.running]
    cases s.paused <;> simp [hstage]
  stopping hshutdown _ _ := h.stopping hshutdown (by simp [hstage]) (by simp [hstage])
  going := h.going
  last := ⟨h.last.1, fun _ => h.last.2 (by rw [show notes.stage = _ from hstage]; rfl)⟩
  paused hpaused := by
    have hpaused : s.paused = true := hpaused
    exact ⟨(h.paused hpaused).1, fun hstarting => by simp [hpaused] at hstarting⟩

theorem sound_wake (h : Sound n (s, notes)) (hlock : s.lock = some i)
    (hstage : notes.stage = .pausing ∨ notes.stage = .resting)
    (hwoken : s' = s ∨ s.Woken s') : Sound n (s', { notes with stage := .woken }) := by
  have hsame : s'.lock = s.lock ∧ s'.running = s.running ∧ s'.shutdown = s.shutdown ∧
      s'.paused = s.paused := by
    rcases hwoken with rfl | ⟨-, rfl⟩ | ⟨-, rfl⟩ <;> exact ⟨rfl, rfl, rfl, rfl⟩
  obtain ⟨hlock', hrunning', hshutdown', hpaused'⟩ := hsame
  exact {
    newer := fun j hj => by simpa only [hlock'] using h.newer j hj
    off := fun hoff => by cases (hlock'.symm.trans hoff).symm.trans hlock
    landed := h.landed
    told := h.told
    heard := nofun
    resumed := nofun
    running := by
      simp only [hrunning']
      rw [show s.running = _ from h.running]
      rcases hstage with hstage | hstage <;> simp [hstage]
    stopping := fun _ hwoken => absurd rfl hwoken
    going := fun hshutdown => h.going (hshutdown'.symm.trans hshutdown)
    last := ⟨h.last.1, nofun⟩
    paused := fun hpaused => ⟨(h.paused (hpaused'.symm.trans hpaused)).1, nofun⟩ }

theorem sound_run {running : Bool} (h : Sound n (s, notes))
    (hat : (Place.loop (if running then .starting else .cycling)).holds i (s, notes)) :
    Sound n ({ s with running := running },
      WakeCall.seen i s notes (.storeRunning running) ()) := by
  obtain ⟨hlock, hstage, -⟩ := hat
  cases running with
  | true =>
    have hstage : notes.stage = .starting := hstage
    exact {
      newer := h.newer
      off := fun hoff => by cases hlock.symm.trans hoff
      landed := h.landed
      told := h.told
      heard := fun _ hpermit => h.heard (by rw [show notes.stage = _ from hstage]; rfl) hpermit
      resumed := nofun
      running := rfl
      stopping := fun hshutdown _ _ => h.stopping hshutdown (by simp [hstage]) (by simp [hstage])
      going := fun hshutdown => by
        have hshutdown : s.shutdown = false := hshutdown
        simpa [WakeCall.seen, hshutdown] using h.going hshutdown
      last := by
        have hnone : notes.sinceShutdown = 0 :=
          h.last.2 (by rw [show notes.stage = _ from hstage]; rfl)
        refine ⟨?_, nofun⟩
        simp only [WakeCall.seen, hnone]
        split <;> omega
      paused := fun hpaused => by
        have hnone : notes.sincePause = 0 := (h.paused hpaused).2 hstage
        exact ⟨by simp [WakeCall.seen, hnone], nofun⟩ }
  | false =>
    have hstage : notes.stage = .cycling := hstage
    exact {
      newer := h.newer
      off := fun hoff => by cases hlock.symm.trans hoff
      landed := h.landed
      told := h.told
      heard := fun _ hpermit => h.heard (by rw [show notes.stage = _ from hstage]; rfl) hpermit
      resumed := nofun
      running := rfl
      stopping := fun hshutdown _ _ => h.stopping hshutdown (by simp [hstage]) (by simp [hstage])
      going := h.going
      last := ⟨h.last.1, nofun⟩
      paused := fun hpaused => ⟨(h.paused hpaused).1, nofun⟩ }

theorem sound_turn (h : Sound n (s, notes)) (hlock : s.lock = some i)
    (hstage : notes.stage = .woken) :
    Sound n (s, { notes with stage := if s.shutdown then .over else .top }) where
  newer := h.newer
  off hoff := by cases hlock.symm.trans hoff
  landed := h.landed
  told := h.told
  heard hlooked := by
    cases hshutdown : s.shutdown <;> simp [hshutdown, Stage.looked] at hlooked
  resumed hpausing := by
    cases hshutdown : s.shutdown <;> simp [hshutdown] at hpausing
  running := by
    rw [show s.running = _ from h.running]
    cases s.shutdown <;> simp [hstage]
  stopping hshutdown _ hover := by
    have hshutdown : s.shutdown = true := hshutdown
    simp [hshutdown] at hover
  going := h.going
  last := by
    refine ⟨h.last.1, fun hahead => h.going ?_⟩
    cases hshutdown : s.shutdown with
    | false => rfl
    | true => simp [hshutdown, Stage.ahead] at hahead
  paused hpaused := by
    refine ⟨(h.paused hpaused).1, fun hstarting => ?_⟩
    cases hshutdown : s.shutdown <;> simp [hshutdown] at hstarting

theorem sound_call (hallow : c.allowed a) (h : Sound n (s, notes)) (hlt : i < n)
    (hat : a.holds i (s, notes)) (hstep : c.Step i s s' b) :
    Sound n (s', c.seen i s notes b) ∧ (c.moves a b).holds i (s', c.seen i s notes b) := by
  cases c with
  | acquireLockfile =>
    cases b with
    | error e =>
      obtain rfl : s' = s := hstep
      exact ⟨h, hat⟩
    | ok =>
      obtain rfl : a = .fresh := hallow
      obtain ⟨hfree, rfl⟩ := hstep
      have hoff : notes.stage = .off := h.off hfree
      refine ⟨?_, rfl, rfl, hat.2.2.2⟩
      exact {
        newer := fun j hj => ⟨fun heq => by cases heq; omega, (h.newer j hj).2⟩
        off := nofun
        landed := h.landed
        told := h.told
        heard := nofun
        resumed := nofun
        running := h.running.trans (by simp [hoff, WakeCall.seen])
        stopping := fun hshutdown _ _ => h.stopping hshutdown (by simp [hoff]) (by simp [hoff])
        going := h.going
        last := ⟨h.last.1, fun _ => h.last.2 (by rw [show notes.stage = _ from hoff]; rfl)⟩
        paused := fun hpaused => ⟨(h.paused hpaused).1, nofun⟩ }
  | loadPaused =>
    obtain ⟨rfl, rfl⟩ := hstep
    rcases hallow with rfl | rfl
    · obtain ⟨hlock, hstage, hstored⟩ := hat
      simp only [WakeCall.seen, if_pos hlock]
      exact ⟨sound_look h hstage hlock, hlock, rfl, hstored⟩
    · have hlock : ¬ s'.lock = some i := hat.1
      simp only [WakeCall.seen, if_neg hlock]
      exact ⟨h, hat⟩
  | storePaused paused =>
    obtain rfl : a = .fresh := hallow
    obtain rfl : s' = _ := hstep
    refine ⟨{ h.land hlt hat with
      newer := fun j hj => ?_
      resumed := fun _ hpaused _ => ?_
      paused := fun _ => ?_ }, hat.1, hat.2.2.1⟩
    · have hne : j ≠ i := by omega
      obtain ⟨hlock, hlanded, htold, hstored⟩ := (h.land hlt hat).newer j hj
      exact ⟨hlock, hlanded, htold, (Function.update_of_ne hne _ _).trans hstored⟩
    · obtain rfl : paused = false := hpaused
      exact ⟨i, Function.update_self _ _ _, Function.update_self _ _ _, hat.2.2.1⟩
    · cases hpaused : s.paused with
      | true => simpa [WakeCall.seen, Notes.land, hpaused] using h.paused hpaused
      | false => simp [WakeCall.seen, hpaused]
  | storeOverdrive enabled =>
    obtain rfl : a = .fresh := hallow
    obtain rfl : s' = _ := hstep
    exact ⟨{ h.land hlt hat with }, hat.1, hat.2.2.1⟩
  | storeRunning running =>
    obtain rfl : a = _ := hallow
    obtain rfl : s' = _ := hstep
    refine ⟨sound_run h hat, hat.1, ?_⟩
    cases running <;> exact ⟨rfl, hat.2.2⟩
  | waitPaused =>
    obtain rfl : a = _ := hallow
    refine ⟨sound_wake h hat.1 (Or.inl hat.2.1) (Or.inr hstep), ?_, rfl, hat.2.2⟩
    rcases hstep with ⟨-, rfl⟩ | ⟨-, rfl⟩ <;> exact hat.1
  | waitSleeping =>
    obtain ⟨rfl, -⟩ := hallow
    refine ⟨sound_wake h hat.1 (Or.inr hat.2.1) hstep, ?_, rfl, hat.2.2⟩
    rcases hstep with rfl | ⟨-, rfl⟩ | ⟨-, rfl⟩ <;> exact hat.1
  | loadShutdown =>
    obtain rfl : a = _ := hallow
    obtain ⟨rfl, rfl⟩ := hstep
    exact ⟨sound_turn h hat.1 hat.2.1, hat.1, rfl, hat.2.2⟩
  | storeShutdown =>
    obtain rfl : s' = _ := hstep
    refine ⟨{ h with
      stopping := fun _ _ _ => rfl
      going := nofun }, ?_⟩
    cases a <;> exact hat
  | write =>
    obtain rfl : a = .fresh := hallow
    obtain rfl : s' = s := hstep
    cases b with
    | error e => exact ⟨h, hat⟩
    | ok => exact ⟨h.land hlt hat, hat.1, hat.2.2⟩
  | notifyOne =>
    obtain rfl : s' = _ := hstep
    have hlock : ¬ s.lock = some i := by
      rcases hallow with rfl | rfl | rfl <;> exact hat.1
    refine ⟨sound_tell h hlt, hlock, ?_⟩
    exact congrArg Option.isSome (Function.update_self i (some notes.looks) notes.told)
  | loadRunning =>
    obtain ⟨-, rfl⟩ := hstep
    exact ⟨h, hat⟩
  | _ =>
    obtain rfl : s' = s := hstep
    exact ⟨h, hat⟩

theorem step_others {j : Nat} (hij : i ≠ j) (hallow : c.allowed a) (hat : a.holds i (s, notes))
    (hstep : c.Step i s s' b) : (s'.lock = some j ↔ s.lock = some j) ∧
      (c.seen i s notes b).landed j = notes.landed j ∧
      (c.seen i s notes b).told j = notes.told j ∧
      (c.seen i s notes b).stored j = notes.stored j ∧
      (s.lock = some j → (c.seen i s notes b).stage = notes.stage) := by
  have hother : s.lock = some i → ¬ s.lock = some j := fun hi hj => by
    rw [hi] at hj
    exact hij (Option.some.inj hj)
  have hland : (notes.land i).landed j = notes.landed j := Function.update_of_ne hij.symm _ _
  cases c with
  | acquireLockfile =>
    cases b with
    | error e =>
      obtain rfl : s' = s := hstep
      exact ⟨Iff.rfl, rfl, rfl, rfl, fun _ => rfl⟩
    | ok =>
      obtain ⟨hfree, rfl⟩ := hstep
      refine ⟨?_, rfl, rfl, rfl, fun hj => by cases hfree.symm.trans hj⟩
      rw [hfree]
      exact ⟨fun hj => absurd (Option.some.inj hj) hij, nofun⟩
  | loadPaused =>
    obtain ⟨rfl, rfl⟩ := hstep
    refine ⟨Iff.rfl, ?_, ?_, ?_, fun hj => ?_⟩
    · simp only [WakeCall.seen]
      split <;> rfl
    · simp only [WakeCall.seen]
      split <;> rfl
    · simp only [WakeCall.seen]
      split <;> rfl
    · rw [WakeCall.seen, if_neg fun hi => hother hi hj]
  | storePaused =>
    obtain rfl : s' = _ := hstep
    exact ⟨Iff.rfl, hland, rfl, Function.update_of_ne hij.symm _ _, fun _ => rfl⟩
  | storeOverdrive =>
    obtain rfl : s' = _ := hstep
    exact ⟨Iff.rfl, hland, rfl, rfl, fun _ => rfl⟩
  | storeRunning running =>
    obtain rfl : a = _ := hallow
    obtain rfl : s' = _ := hstep
    refine ⟨Iff.rfl, ?_, ?_, ?_, fun hj => absurd hj (hother hat.1)⟩ <;> cases running <;> rfl
  | waitPaused =>
    obtain rfl : a = _ := hallow
    refine ⟨?_, rfl, rfl, rfl, fun hj => absurd hj (hother hat.1)⟩
    rcases hstep with ⟨-, rfl⟩ | ⟨-, rfl⟩ <;> rfl
  | waitSleeping =>
    obtain ⟨rfl, -⟩ := hallow
    refine ⟨?_, rfl, rfl, rfl, fun hj => absurd hj (hother hat.1)⟩
    rcases hstep with rfl | ⟨-, rfl⟩ | ⟨-, rfl⟩ <;> rfl
  | loadShutdown =>
    obtain rfl : a = _ := hallow
    obtain ⟨rfl, rfl⟩ := hstep
    exact ⟨Iff.rfl, rfl, rfl, rfl, fun hj => absurd hj (hother hat.1)⟩
  | storeShutdown =>
    obtain rfl : s' = _ := hstep
    exact ⟨Iff.rfl, rfl, rfl, rfl, fun _ => rfl⟩
  | write =>
    obtain rfl : s' = s := hstep
    cases b with
    | error e => exact ⟨Iff.rfl, rfl, rfl, rfl, fun _ => rfl⟩
    | ok => exact ⟨Iff.rfl, hland, rfl, rfl, fun _ => rfl⟩
  | notifyOne =>
    obtain rfl : s' = _ := hstep
    exact ⟨Iff.rfl, rfl, Function.update_of_ne hij.symm _ _, rfl, fun _ => rfl⟩
  | loadRunning =>
    obtain ⟨-, rfl⟩ := hstep
    exact ⟨Iff.rfl, rfl, rfl, rfl, fun _ => rfl⟩
  | _ =>
    obtain rfl : s' = s := hstep
    exact ⟨Iff.rfl, rfl, rfl, rfl, fun _ => rfl⟩

theorem holds_frame {j : Nat} {a' : Place} (hij : i ≠ j) (hallow : c.allowed a)
    (hat : a.holds i (s, notes)) (hstep : c.Step i s s' b) (hj : a'.holds j (s, notes)) :
    a'.holds j (s', c.seen i s notes b) := by
  obtain ⟨hlock, hlanded, htold, hstored, hstage⟩ := step_others hij hallow hat hstep
  cases a' with
  | loop stage => exact ⟨hlock.2 hj.1, (hstage hj.1).trans hj.2.1, hstored.trans hj.2.2⟩
  | fresh =>
    exact ⟨fun h => hj.1 (hlock.1 h), hlanded.trans hj.2.1, htold.trans hj.2.2.1,
      hstored.trans hj.2.2.2⟩
  | landed => exact ⟨fun h => hj.1 (hlock.1 h), htold.trans hj.2.1, hstored.trans hj.2.2⟩
  | switched => exact ⟨fun h => hj.1 (hlock.1 h), htold.trans hj.2⟩
  | told => exact ⟨fun h => hj.1 (hlock.1 h), (congrArg Option.isSome htold).trans hj.2⟩

end

def follower : watched.Follower protocol where
  entry := entry
  ready := ready
  mayEnd a := a ≠ .switched
  answers _ _ _ _ _ _ := trivial
  follows task := follows_body task

theorem sound_invariant : watched.Invariant follower Sound fun a i x => a.holds i x where
  init x hx := by
    obtain ⟨s, notes⟩ := x
    obtain ⟨rfl, rfl⟩ := hx
    exact ⟨fun _ _ => ⟨nofun, rfl, rfl, rfl⟩, fun _ => rfl, nofun, nofun, nofun, nofun, rfl, nofun,
      fun _ => rfl, ⟨Nat.zero_le 1, fun _ => rfl⟩, nofun⟩
  start n task x hstarts h := by
    refine ⟨{ h with newer := fun i hi => h.newer i (by omega) }, ?_⟩
    cases task with
    | loop => exact absurd rfl hstarts
    | _ => exact h.newer n (le_refl n)
  call n i a c x b x' hlt hallow h hat hstep := by
    obtain ⟨s, notes⟩ := x
    obtain ⟨s', notes'⟩ := x'
    obtain ⟨hstep, hnotes⟩ := hstep
    cases hnotes
    exact sound_call hallow h hlt hat hstep
  frame n i j a a' c x b x' hij hallow _ hat hj hstep := by
    obtain ⟨s', notes'⟩ := x'
    obtain ⟨hstep, hnotes⟩ := hstep
    cases hnotes
    exact holds_frame hij hallow hat hstep hj
  go a task i x hready hat := by
    obtain ⟨rfl, rfl⟩ := hready
    exact hat
  leave n i a p x _ _ h _ := ⟨h, fun _ _ _ hj => hj⟩
  env n x x' h henv := by
    obtain ⟨s', notes'⟩ := x'
    obtain ⟨hs, hnotes⟩ := henv
    obtain rfl : s' = x.1 := hs
    obtain rfl : notes' = x.2 := hnotes
    exact ⟨h, fun _ _ hj => hj⟩
  restart n x x' h hre := hre.1.elim

/-- How long a call waits for a notification or the shutdown: for good, or for some seconds. -/
def WakeCall.waits : {β : Type} → WakeCall β → Option (Option ℚ)
  | _, .waitPaused => some none
  | _, .waitSleeping sleepS => some (some sleepS)
  | _, _ => none

theorem waits_allowed {β : Type} {c : WakeCall β} {a : Place} {limit : Option ℚ}
    (hallow : c.allowed a) (hwait : c.waits = some limit) :
    a = .loop .pausing ∧ limit = none ∨
      a = .loop .resting ∧ ∃ sleepS, limit = some sleepS ∧ Bounded sleepS := by
  cases c with
  | waitPaused =>
    cases hwait
    exact Or.inl ⟨hallow, rfl⟩
  | waitSleeping sleepS =>
    cases hwait
    exact Or.inr ⟨hallow.1, sleepS, rfl, hallow.2⟩
  | _ => cases hwait

section
variable {x : Pool.Config watched} {i : Nat}

theorem waits_stage (hx : watched.Reachable x) {β : Type} {c : WakeCall β}
    {k : β → Prog WakeCall Text (Option Task)} (hthread : x.threads i = some (.call c k))
    {limit : Option ℚ} (hwait : c.waits = some limit) :
    Sound x.next x.state ∧ (x.state.2.stage = .pausing ∧ limit = none ∨
      x.state.2.stage = .resting ∧ ∃ sleepS, limit = some sleepS ∧ Bounded sleepS) := by
  obtain ⟨h, a, hallow, hat⟩ := sound_invariant.allowed hx hthread
  refine ⟨h, ?_⟩
  rcases waits_allowed hallow hwait with ⟨rfl, hlimit⟩ | ⟨rfl, hlimit⟩
  · exact Or.inl ⟨hat.2.1, hlimit⟩
  · exact Or.inr ⟨hat.2.1, hlimit⟩

def Resuming (i : Nat) (x : Scheduler × Notes) : Prop :=
  x.2.stored i = some false ∧ x.2.told i = none

theorem switched_of_resuming {a : Place} {y : Scheduler × Notes} (hat : a.holds i y)
    (h : Resuming i y) : a = .switched := by
  cases a with
  | switched => rfl
  | loop => cases hat.2.2.symm.trans h.1
  | fresh => cases hat.2.2.2.symm.trans h.1
  | landed => cases hat.2.2.symm.trans h.1
  | told =>
    obtain ⟨-, hsome⟩ := hat
    rw [h.2] at hsome
    cases hsome

theorem notifies_of_switched {p : Prog WakeCall Text (Option Task)}
    (h : Follows protocol .switched p follower.Ending) : ∃ k, p = .call .notifyOne k := by
  cases p with
  | done task =>
    cases task with
    | none => exact absurd rfl h
    | some task => exact nomatch h.2
  | fail e => exact absurd rfl h
  | call c k =>
    cases c with
    | notifyOne => exact ⟨k, rfl⟩
    | loadPaused => rcases h.1 with h | h <;> cases h
    | waitSleeping => cases h.1.1
    | acquireLockfile | storePaused | storeOverdrive | storeRunning | write | waitPaused
    | loadShutdown | runCycle => cases h.1
    | _ => exact absurd rfl h.1

theorem notifies_of_resuming (hx : watched.Reachable x) (h : Resuming i x.state) :
    ∃ k, x.threads i = some (.call .notifyOne k) := by
  have hthread : ∃ p, x.threads i = some p := by
    refine sound_invariant.present ?_ ?_ ?_ ?_ ?_ hx h
    · rintro i y ⟨-, hnotes⟩ ho
      rw [Resuming, hnotes] at ho
      cases ho.1
    · rintro β i j a c y b ⟨s', notes'⟩ hij hallow hat ⟨hstep, hnotes⟩ ho
      cases hnotes
      obtain ⟨-, -, htold, hstored, -⟩ := step_others hij hallow hat hstep
      exact ⟨hstored.symm.trans ho.1, htold.symm.trans ho.2⟩
    · -- A thread between its switch and its notification does not await, so it stays.
      intro i j a p y hfollows hmay hat ho
      refine ⟨?_, ho⟩
      rintro rfl
      obtain rfl := switched_of_resuming hat ho
      obtain ⟨k, rfl⟩ := notifies_of_switched hfollows
      cases hmay
    · rintro i y y' ⟨-, hnotes⟩ ho
      rw [Resuming, hnotes] at ho
      exact ho
    · intro i y y' hre
      exact hre.1.elim
  obtain ⟨p, hp⟩ := hthread
  obtain ⟨-, hfollowed⟩ := sound_invariant.reachable hx
  obtain ⟨-, a, hfollows, hat⟩ := hfollowed i p hp
  obtain rfl := switched_of_resuming hat h
  obtain ⟨k, rfl⟩ := notifies_of_switched hfollows
  exact ⟨k, hp⟩

/-- While the loop waits, the shutdown has not been set unless it is about to wake it; and with no
notification left for it, it has looked since every change that was notified. Where it waits for
good, it is paused, or the thread that resumed it is about to notify it; else it waits an hour at
most. -/
theorem wake_not_lost (hx : watched.Reachable x) {β : Type} {c : WakeCall β}
    {k : β → Prog WakeCall Text (Option Task)} (hthread : x.threads i = some (.call c k))
    {limit : Option ℚ} (hwait : c.waits = some limit) :
    (x.state.1.shutdown = true → x.state.1.unseen = true) ∧
    (x.state.1.permit = false →
      (∀ j told, x.state.2.told j = some told → told < x.state.2.looks ∧
        ∀ landed, x.state.2.landed j = some landed → landed < x.state.2.looks) ∧
      (limit = none → x.state.1.paused = true ∨
        ∃ j k', x.threads j = some (.call .notifyOne k') ∧ x.state.2.stored j = some false ∧
          x.state.2.landed j = some x.state.2.looks ∧ x.state.2.told j = none)) ∧
    ∀ sleepS, limit = some sleepS → 0 ≤ sleepS ∧ sleepS ≤ 3600 := by
  obtain ⟨h, hstage⟩ := waits_stage hx hthread hwait
  have hlooked : x.state.2.stage.looked = true := by
    rcases hstage with ⟨hstage, -⟩ | ⟨hstage, -⟩ <;> rw [hstage] <;> rfl
  refine ⟨fun hshutdown => ?_, fun hpermit => ⟨fun j told htold => ?_, fun hlimit => ?_⟩,
    fun sleepS hlimit => ?_⟩
  · refine h.stopping hshutdown ?_ ?_ <;> rintro heq <;> simp [heq, Stage.looked] at hlooked
  · have hlt := h.heard hlooked hpermit j told htold
    exact ⟨hlt, fun landed hlanded => ((h.told j told htold).2 landed hlanded).trans_lt hlt⟩
  · rcases hstage with ⟨hstage, -⟩ | ⟨-, sleepS, hsleep, -⟩
    · cases hpaused : x.state.1.paused with
      | true => exact Or.inl rfl
      | false =>
        obtain ⟨j, hstored, hlanded, htold⟩ := h.resumed hstage hpaused hpermit
        obtain ⟨k', hj⟩ := notifies_of_resuming hx ⟨hstored, htold⟩
        exact Or.inr ⟨j, k', hj, hstored, hlanded, htold⟩
    · cases hlimit.symm.trans hsleep
  · rcases hstage with ⟨-, hnone⟩ | ⟨-, sleepS', hsleep, hbounds⟩
    · cases hnone.symm.trans hlimit
    · cases hsleep.symm.trans hlimit
      exact hbounds

end

/-! A pause that lands between the loop's look and its cycle, and a resumption not notified yet. -/

theorem watched_start {threads : Nat → Option (Prog WakeCall Text (Option Task))} {n : Nat}
    {s : Scheduler} {notes : Notes} (task : Task) (hstarts : task ≠ .loop)
    (h : watched.Reachable ⟨threads, n, s, notes⟩) : watched.Reachable
      ⟨update threads n (some (watched.body task)), n + 1, s, notes⟩ :=
  h.step (.start hstarts)

theorem watched_call {threads : Nat → Option (Prog WakeCall Text (Option Task))} {n i : Nat}
    {s s' : Scheduler} {notes : Notes} {β : Type} {c : WakeCall β} {b : β}
    {k : β → Prog WakeCall Text (Option Task)}
    (h : watched.Reachable ⟨update threads i (some (.call c k)), n, s, notes⟩)
    (hstep : c.Step i s s' b) : watched.Reachable
      ⟨update threads i (some (k b)), n, s', c.seen i s notes b⟩ :=
  h.call ⟨hstep, rfl⟩

theorem loop_starts : ∃ notes, watched.Reachable
    ⟨update (fun _ => none) 0 (some (watched.body .loop)), 1,
      { Scheduler.fresh with lock := some 0 }, notes⟩ := by
  have h : watched.Reachable ⟨fun _ => none, 0, Scheduler.fresh, Notes.empty⟩ := .start ⟨rfl, rfl⟩
  have h := watched_start .daemon nofun h
  have h := watched_call (c := .acquireLockfile) (b := .ok ()) h ⟨rfl, rfl⟩
  have h := watched_call (c := .startUp) (b := .ok ()) h rfl
  exact ⟨_, h.go⟩

/-- Resumed, but not notified yet: the loop waits. -/
theorem wake_not_lost_resuming : ∃ x k j k', watched.Reachable x ∧
    x.threads 0 = some (.call .waitPaused k) ∧ x.state.1.paused = false ∧
      x.threads j = some (.call .notifyOne k') ∧ x.state.2.stored j = some false := by
  obtain ⟨notes, h⟩ := loop_starts
  have h := watched_start (.setPaused true) nofun h
  have h := watched_call (c := .storePaused true) (b := ()) h rfl
  have h := watched_call (c := .notifyOne) (b := ()) h rfl
  rw [Function.update_comm (by decide)] at h
  have h := watched_call (c := .loadPaused) (b := true) h ⟨rfl, rfl⟩
  have h := watched_call (c := .setSchedulerState _ _ _) (b := ()) h rfl
  have h := watched_call (c := .waitPaused) (b := ()) h (Or.inl ⟨rfl, rfl⟩)
  have h := watched_call (c := .loadShutdown) (b := false) h ⟨rfl, rfl⟩
  have h := h.go
  have h := watched_call (c := .loadPaused) (b := true) h ⟨rfl, rfl⟩
  have h := watched_call (c := .setSchedulerState _ _ _) (b := ()) h rfl
  have h := watched_start (.setPaused false) nofun h
  have h := watched_call (c := .storePaused false) (b := ()) h rfl
  obtain ⟨-, hwaits, -⟩ := wake_not_lost (i := 0) h rfl rfl
  obtain ⟨-, hresumed⟩ := hwaits rfl
  rcases hresumed rfl with hpaused | ⟨j, k', hj, hstored, -⟩
  · cases hpaused
  · exact ⟨_, _, j, k', h, rfl, rfl, hj, hstored⟩

section
variable {x : Pool.Config watched} {i : Nat}

/-- After a pause, and after the shutdown, at most one more cycle begins; cycles never overlap, and
`running` is set throughout each one and clear whenever the loop waits. -/
theorem cycles_stop (hx : watched.Reachable x) :
    (x.state.1.paused = true → x.state.2.sincePause ≤ 1) ∧ x.state.2.sinceShutdown ≤ 1 ∧
    (∀ k, x.threads i = some (.call .runCycle k) → x.state.1.running = true ∧
      ∀ j k', x.threads j = some (.call .runCycle k') → j = i) ∧
    ∀ {β : Type} (c : WakeCall β) k, x.threads i = some (.call c k) → c.waits.isSome →
      x.state.1.running = false := by
  obtain ⟨h, -⟩ := sound_invariant.reachable hx
  have hcycling : ∀ j k, x.threads j = some (.call .runCycle k) →
      x.state.1.lock = some j ∧ x.state.2.stage = .cycling := by
    intro j k hthread
    obtain ⟨-, a, hallow, hat⟩ := sound_invariant.allowed hx hthread
    obtain rfl : a = .loop .cycling := hallow
    exact ⟨hat.1, hat.2.1⟩
  refine ⟨fun hpaused => (h.paused hpaused).1, h.last.1, fun k hthread => ⟨?_, ?_⟩, ?_⟩
  · rw [h.running, (hcycling i k hthread).2]
    rfl
  · intro j k' hthread'
    exact Option.some.inj ((hcycling j k' hthread').1.symm.trans (hcycling i k hthread).1)
  · intro β c k hthread hwait
    obtain ⟨limit, hlimit⟩ := Option.isSome_iff_exists.1 hwait
    obtain ⟨-, ⟨hstage, -⟩ | ⟨hstage, -⟩⟩ := waits_stage hx hthread hlimit <;>
      simp [h.running, hstage]

end

/-- The one cycle after a pause. -/
theorem cycles_stop_late : ∃ x k, watched.Reachable x ∧ x.threads 0 = some (.call .runCycle k) ∧
    x.state.1.paused = true ∧ x.state.1.running = true ∧ x.state.2.sincePause = 1 := by
  obtain ⟨notes, h⟩ := loop_starts
  have h := watched_call (c := .loadPaused) (b := false) h ⟨rfl, rfl⟩
  have h := watched_start (.setPaused true) nofun h
  have h := watched_call (c := .storePaused true) (b := ()) h rfl
  rw [Function.update_comm (by decide)] at h
  have h := watched_call (c := .storeRunning true) (b := ()) h rfl
  obtain ⟨hpause, -, hcycle, -⟩ := cycles_stop (i := 0) h
  exact ⟨_, _, h, rfl, rfl, (hcycle _ rfl).1, le_antisymm (hpause rfl) (Nat.succ_pos _)⟩

end Hunter.Wake
