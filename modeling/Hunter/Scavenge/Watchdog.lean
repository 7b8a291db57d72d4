import Hunter.Scavenge.Metering
set_option autoImplicit false

namespace Hunter.Scavenge

/-- What one turn of the loop finds: whether the worker has exited, its session directory, and
the seconds since its start at the two checks of the clock. -/
structure Look where
  exited : Bool
  dir : SessionDir
  graceAt : Nat
  wallAt : Nat

structure Limits where
  capTokens : Option Int
  maxWallS : Int
  sessionGraceS : Nat

/-- The session file, the tokens and the calls of this attempt, as last read. -/
abbrev Read := Option Text × Int × Int

/-- No call of this attempt is recorded, or of a fresh one no ledger at all. -/
def unmetered (resume : Option Text) (read : Read) : Bool :=
  if resume.isSome then decide (read.2.2 = 0) else read.1.isNone

inductive Turn
  | exited
  | killed (why : Text)
  | sleeps

def Turn.ends : Turn → Option (Option Text)
  | .exited => some none
  | .killed why => some (some why)
  | .sleeps => none

def capped : Text := "cap".toList
def wallclock : Text := "wallclock".toList
def unmeteredKill : Text := "unmetered".toList

def Limits.turn (limits : Limits) (resume : Option Text) (look : Look) (read : Read) : Turn :=
  if look.exited then .exited
  else if limits.capTokens.any fun cap => cap ≤ read.2.1 then .killed capped
  else if unmetered resume read && limits.sessionGraceS ≤ look.graceAt then .killed unmeteredKill
  else if limits.maxWallS ≤ look.wallAt then .killed wallclock
  else .sleeps

section
variable (parse : Text → Option Message)

/-- Why the worker was killed, and what was read last; `none` where the loop goes on. -/
def watchdog (limits : Limits) (resume : Option Text) (base : Int × Int) :
    List Look → Read → Option (Option Text × Read)
  | [], _ => none
  | look :: rest, before =>
    let read := reading parse look.dir base before
    match (limits.turn resume look read).ends with
    | some killed => some (killed, read)
    | none => watchdog limits resume base rest read

/-- What the worker leaves when it is gone. -/
structure Left where
  after : SessionDir
  exitCode : Option Int
  output : Text

/-- The rest of `run_worker`, from the worker's end on. -/
def conclude (dir : SessionDir) (resume : Option Text) (killed : Option Text) (read : Read)
    (left : Left) : Metered :=
  let lost := resumeLost dir left.after resume
  let final := reading parse left.after (if lost then 0 else baseline parse dir resume) read
  { run := {
      killedReason :=
        if unmetered resume final && killed.isNone then some unmeteredKill else killed
      exitCode := left.exitCode
      tokensNew := final.2.1
      sessionFile := final.1
      stdoutTail := if lost then "[resume-lost] ".toList ++ left.output else left.output }
    calls := final.2.2 }

/-- The worker's whole run under the watchdog, as far as the looks go. -/
def supervise (limits : Limits) (dir : SessionDir) (resume : Option Text) (looks : List Look)
    (left : Left) : Option Metered :=
  (watchdog parse limits resume (baseline parse dir resume) looks (none, 0, 0)).map
    fun (killed, read) => conclude parse dir resume killed read left

/-- The last of the directories that held a ledger. -/
def polled (looks : List Look) (before : SessionDir) : SessionDir :=
  looks.foldl (fun dir look => if look.dir.files.isEmpty then dir else look.dir) before

variable {parse}

theorem reading_empty {dir : SessionDir} {base : Int × Int} {before : Read}
    (h : dir.files = []) : reading parse dir base before = before := by
  simp [reading, ledgerDirUsage, h]

variable (parse) in
theorem reading_of_files {dir : SessionDir} (base : Int × Int) (before : Read)
    (h : dir.files ≠ []) : ∃ first, reading parse dir base before =
      (some first, max ((filesUsage parse dir.files).1 - base.1) 0,
        max ((filesUsage parse dir.files).2 - base.2) 0) := by
  obtain ⟨first, hfirst⟩ := ledgerDirUsage_eq parse h
  exact ⟨first, by rw [reading, hfirst]⟩

theorem reading_reading {dir : SessionDir} {base : Int × Int} (before before' : Read)
    (h : dir.files ≠ []) : reading parse dir base before = reading parse dir base before' := by
  obtain ⟨first, hfirst⟩ := ledgerDirUsage_eq parse h
  rw [reading, reading, hfirst]

/-- A look at which nothing ends the worker. -/
structure Spared (limits : Limits) (look : Look) (tokens : Int) : Prop where
  running : look.exited = false
  inTime : look.wallAt < limits.maxWallS
  affordable : ∀ cap ∈ limits.capTokens, tokens < cap

def Cause (limits : Limits) (resume : Option Text) (look : Look) (read : Read) :
    Option Text → Prop
  | none => look.exited = true
  | some why => look.exited = false ∧
      (why = capped ∧ (∃ cap ∈ limits.capTokens, cap ≤ read.2.1) ∨
        (∀ cap ∈ limits.capTokens, read.2.1 < cap) ∧
          (why = unmeteredKill ∧ unmetered resume read = true ∧
              limits.sessionGraceS ≤ look.graceAt ∨
            why = wallclock ∧ limits.maxWallS ≤ look.wallAt))

theorem below_of_not_any {cap? : Option Int} {tokens : Int}
    (h : ¬ (cap?.any fun cap => cap ≤ tokens) = true) : ∀ cap ∈ cap?, tokens < cap := by
  intro cap hcap
  rw [Option.mem_def.1 hcap] at h
  simpa using h

theorem cause_turn {limits : Limits} {resume : Option Text} {look : Look} {read : Read}
    {killed : Option Text} (h : (limits.turn resume look read).ends = some killed) :
    Cause limits resume look read killed := by
  unfold Limits.turn at h
  split at h
  · rename_i hexited
    cases h
    exact hexited
  · rename_i hrunning
    rw [Bool.not_eq_true] at hrunning
    split at h
    · rename_i hcap
      cases h
      exact ⟨hrunning, Or.inl ⟨rfl, by simpa [Option.any_eq_true] using hcap⟩⟩
    · rename_i hcap
      have hbelow := below_of_not_any hcap
      split at h
      · rename_i hgrace
        rw [Bool.and_eq_true, decide_eq_true_iff] at hgrace
        cases h
        exact ⟨hrunning, Or.inr ⟨hbelow, Or.inl ⟨rfl, hgrace⟩⟩⟩
      · split at h
        · rename_i hwall
          cases h
          exact ⟨hrunning, Or.inr ⟨hbelow, Or.inr ⟨rfl, hwall⟩⟩⟩
        · cases h

theorem spared_turn {limits : Limits} {resume : Option Text} {look : Look} {read : Read}
    (h : (limits.turn resume look read).ends = none) : Spared limits look read.2.1 := by
  unfold Limits.turn at h
  split at h
  · cases h
  · rename_i hrunning
    split at h
    · cases h
    · rename_i hcap
      split at h
      · cases h
      · split at h
        · cases h
        · rename_i hwall
          exact ⟨by simpa using hrunning, not_le.1 hwall, below_of_not_any hcap⟩

/-- The loop ends at the first look that calls for it, and its reads come to one read of the
last ledger found. -/
theorem watchdog_ends {limits : Limits} {resume : Option Text} {base : Int × Int}
    {looks : List Look} {dir : SessionDir} {killed : Option Text} {read : Read}
    (h : watchdog parse limits resume base looks (reading parse dir base (none, 0, 0)) =
      some (killed, read)) :
    ∃ seen last rest, looks = seen ++ last :: rest ∧
      read = reading parse (polled (seen ++ [last]) dir) base (none, 0, 0) ∧
      Cause limits resume last read killed ∧
      ∀ look ∈ seen, ∃ before, Spared limits look
        (reading parse look.dir base (reading parse before base (none, 0, 0))).2.1 := by
  induction looks generalizing dir with
  | nil => cases h
  | cons look rest ih =>
    have hread : reading parse look.dir base (reading parse dir base (none, 0, 0)) =
        reading parse (polled [look] dir) base (none, 0, 0) := by
      by_cases hfiles : look.dir.files = []
      · simp [polled, hfiles, reading_empty hfiles]
      · simpa [polled, hfiles] using reading_reading _ _ hfiles
    simp only [watchdog] at h
    cases hturn : (limits.turn resume look
        (reading parse look.dir base (reading parse dir base (none, 0, 0)))).ends with
    | some ended =>
      rw [hturn] at h
      cases h
      exact ⟨[], look, rest, rfl, hread, cause_turn hturn, fun _ h => by cases h⟩
    | none =>
      rw [hturn, hread] at h
      obtain ⟨seen, last, rest', rfl, hlast, hends, hseen⟩ := ih h
      refine ⟨look :: seen, last, rest', rfl, hlast, hends, fun other hother => ?_⟩
      rcases List.mem_cons.1 hother with rfl | hother
      · exact ⟨dir, spared_turn hturn⟩
      · exact hseen other hother

/-- A worker that exits, or whose time is up, is not watched any longer. -/
theorem watchdog_isSome {limits : Limits} {resume : Option Text} {base : Int × Int}
    {looks : List Look} (before : Read)
    (h : ∃ look ∈ looks, look.exited = true ∨ limits.maxWallS ≤ look.wallAt) :
    (watchdog parse limits resume base looks before).isSome = true := by
  induction looks generalizing before with
  | nil => simp at h
  | cons look rest ih =>
    simp only [watchdog]
    cases hturn : (limits.turn resume look (reading parse look.dir base before)).ends with
    | some ended => rfl
    | none =>
      have hspared := spared_turn hturn
      refine ih _ ?_
      obtain ⟨other, hother, hends⟩ := h
      rcases List.mem_cons.1 hother with rfl | hother
      · rcases hends with hexited | hwall
        · rw [hspared.running] at hexited
          cases hexited
        · exact absurd hspared.inTime (not_lt.2 hwall)
      · exact ⟨other, hother, hends⟩

variable (parse) in
/-- Lines stay, but for an unfinished last one that nothing was read from. -/
def FileGrows (old new : Transcript) : Prop :=
  ∃ kept unfinished more, old = kept ++ unfinished ∧ new = kept ++ more ∧
    ledgerUsage parse unfinished = 0

variable (parse) in
/-- Files grow, and others are added. -/
def DirGrows (dir dir' : SessionDir) : Prop :=
  ∃ grown added, dir'.files.Perm (grown ++ added) ∧
    List.Forall₂ (fun f f' => f.1 = f'.1 ∧ FileGrows parse f.2 f'.2) dir.files grown

variable (parse) in
/-- No record takes tokens back. -/
def NoRefunds : Prop := ∀ line, 0 ≤ (lineUsage parse line).1

theorem ledgerUsage_cons (line : Text) (rest : Transcript) :
    ledgerUsage parse (line :: rest) = lineUsage parse line + ledgerUsage parse rest := by
  simp [ledgerUsage]

theorem filesUsage_cons (f : Text × Transcript) (rest : List (Text × Transcript)) :
    filesUsage parse (f :: rest) = ledgerUsage parse f.2 + filesUsage parse rest := by
  simp [filesUsage]

section
variable (hrefunds : NoRefunds parse)
include hrefunds

theorem lineUsage_nonneg (line : Text) : 0 ≤ lineUsage parse line := by
  refine ⟨hrefunds line, ?_⟩
  unfold lineUsage
  split
  · exact le_refl _
  · split
    · split
      · exact le_refl _
      · exact Int.one_nonneg
    · exact le_refl _

theorem ledgerUsage_nonneg (file : Transcript) : 0 ≤ ledgerUsage parse file := by
  induction file with
  | nil => exact le_refl _
  | cons line rest ih =>
    rw [ledgerUsage_cons]
    exact add_nonneg (lineUsage_nonneg hrefunds line) ih

theorem filesUsage_nonneg (files : List (Text × Transcript)) : 0 ≤ filesUsage parse files := by
  induction files with
  | nil => exact le_refl _
  | cons f rest ih =>
    rw [filesUsage_cons]
    exact add_nonneg (ledgerUsage_nonneg hrefunds f.2) ih

theorem ledgerUsage_grows {old new : Transcript} (h : FileGrows parse old new) :
    (ledgerUsage parse old).1 ≤ (ledgerUsage parse new).1 := by
  obtain ⟨kept, unfinished, more, rfl, rfl, hzero⟩ := h
  have hmore : 0 ≤ (ledgerUsage parse more).1 := (ledgerUsage_nonneg hrefunds more).1
  rw [ledgerUsage_append, ledgerUsage_append, hzero]
  simp only [Prod.fst_add, Prod.fst_zero]
  omega

theorem filesUsage_grows {dir dir' : SessionDir} (h : DirGrows parse dir dir') :
    (filesUsage parse dir.files).1 ≤ (filesUsage parse dir'.files).1 := by
  obtain ⟨grown, added, hperm, hall⟩ := h
  have hsum : filesUsage parse dir'.files = filesUsage parse (grown ++ added) :=
    (hperm.map fun f : Text × Transcript => ledgerUsage parse f.2).sum_eq
  have hadded : 0 ≤ (filesUsage parse added).1 := (filesUsage_nonneg hrefunds added).1
  rw [hsum, filesUsage_append, Prod.fst_add]
  suffices h : (filesUsage parse dir.files).1 ≤ (filesUsage parse grown).1 by omega
  clear hperm hsum
  generalize dir.files = files at hall
  induction hall with
  | nil => exact le_refl _
  | @cons f f' rest rest' hf _ ih =>
    have hgrows := ledgerUsage_grows hrefunds hf.2
    rw [filesUsage_cons, filesUsage_cons, Prod.fst_add, Prod.fst_add]
    exact add_le_add hgrows ih

end

end

section
variable (parse : Text → Option Message)

def Metered.read (r : Metered) : Read := (r.run.sessionFile, r.run.tokensNew, r.calls)

/-- What this attempt had spent at a look. -/
def spent (base : Int × Int) (dir : SessionDir) : Int :=
  max ((filesUsage parse dir.files).1 - base.1) 0

/-- A directory with no call beyond the baseline, or for a fresh attempt with no ledger at all. -/
def Bare (resume : Option Text) (base : Int × Int) (dir : SessionDir) : Prop :=
  if resume.isSome then (filesUsage parse dir.files).2 ≤ base.2 else dir.files = []

/-- What the recorded reason says of the last look, the last ledger found and the record. -/
def Justified (limits : Limits) (resume : Option Text) (base : Int × Int) (last : Look)
    (found : SessionDir) (r : Metered) : Prop :=
  let bare := unmetered resume r.read
  let affordable := ∀ cap ∈ limits.capTokens, spent parse base last.dir < cap
  match r.run.killedReason with
  | none => last.exited = true ∧ bare = false
  | some why =>
    why = capped ∧ last.exited = false ∧ (∃ cap ∈ limits.capTokens, cap ≤ r.run.tokensNew) ∨
    why = wallclock ∧ last.exited = false ∧ limits.maxWallS ≤ last.wallAt ∧ affordable ∨
    why = unmeteredKill ∧ (last.exited = true ∧ bare = true ∨
      last.exited = false ∧ limits.sessionGraceS ≤ last.graceAt ∧ affordable ∧
        Bare parse resume base found)

variable {parse}

theorem tokens_reading {dir : SessionDir} {base : Int × Int} {before : Read}
    (hbase : 0 ≤ base.1) (hbefore : 0 ≤ before.2.1) :
    spent parse base dir ≤ (reading parse dir base before).2.1 ∧
      0 ≤ (reading parse dir base before).2.1 := by
  by_cases hfiles : dir.files = []
  · rw [reading_empty hfiles, spent, hfiles]
    have hzero : (filesUsage parse []).1 = 0 := rfl
    omega
  · obtain ⟨first, hread⟩ := reading_of_files parse base before hfiles
    rw [hread]
    exact ⟨le_refl _, by simp⟩

theorem baseline_nonneg (hrefunds : NoRefunds parse) (dir : SessionDir) (resume : Option Text) :
    0 ≤ baseline parse dir resume := by
  unfold baseline
  split
  · by_cases hfiles : dir.files = []
    · simp [ledgerDirUsage, hfiles]
    · obtain ⟨first, hfirst⟩ := ledgerDirUsage_eq parse hfiles
      rw [hfirst]
      exact filesUsage_nonneg hrefunds dir.files
  · exact le_refl _

theorem DirGrows.files_ne {dir dir' : SessionDir} (h : DirGrows parse dir dir')
    (hfiles : dir.files ≠ []) : dir'.files ≠ [] := by
  obtain ⟨grown, added, hperm, hall⟩ := h
  intro hnil
  have hlen := hperm.length_eq
  rw [hnil, List.length_append, ← hall.length_eq, List.length_nil] at hlen
  exact hfiles (List.length_eq_zero_iff.1 (by omega))

theorem tokens_conclude (hrefunds : NoRefunds parse) (dir : SessionDir) {seen : SessionDir}
    (resume killed : Option Text) {left : Left} (hgrows : DirGrows parse seen left.after) :
    (reading parse seen (baseline parse dir resume) (none, 0, 0)).2.1 ≤
      (conclude parse dir resume killed
        (reading parse seen (baseline parse dir resume) (none, 0, 0)) left).run.tokensNew := by
  have hbase : 0 ≤ (baseline parse dir resume).1 := (baseline_nonneg hrefunds dir resume).1
  have hfinal : ∀ lost : Bool,
      0 ≤ (if lost then 0 else baseline parse dir resume).1 ∧
        (if lost then 0 else baseline parse dir resume).1 ≤ (baseline parse dir resume).1 := by
    intro lost
    cases lost with
    | true => exact ⟨le_refl _, hbase⟩
    | false => exact ⟨hbase, le_refl _⟩
  by_cases hseen : seen.files = []
  · rw [reading_empty hseen]
    exact (tokens_reading (hfinal _).1 (le_refl _)).2
  · obtain ⟨first, hread⟩ := reading_of_files parse (baseline parse dir resume)
      (none, 0, 0) hseen
    have hmore := filesUsage_grows hrefunds hgrows
    have hlower := (hfinal (resumeLost dir left.after resume)).2
    obtain ⟨first', hread'⟩ := reading_of_files parse
      (if resumeLost dir left.after resume then 0 else baseline parse dir resume)
      (reading parse seen (baseline parse dir resume) (none, 0, 0)) (hgrows.files_ne hseen)
    simp only [conclude]
    rw [hread', hread]
    dsimp only
    omega

variable (parse) in
theorem spent_polled {base : Int × Int} (hbase : 0 ≤ base.1) (seen : List Look) (last : Look) :
    spent parse base last.dir ≤
      (reading parse (polled (seen ++ [last]) .empty) base (none, 0, 0)).2.1 := by
  by_cases hfiles : last.dir.files = []
  · have hnonneg : 0 ≤ (reading parse (polled (seen ++ [last]) .empty) base (none, 0, 0)).2.1 :=
      (tokens_reading hbase (le_refl _)).2
    have hzero : (filesUsage parse []).1 = 0 := rfl
    rw [spent, hfiles]
    omega
  · have hpolled : polled (seen ++ [last]) .empty = last.dir := by simp [polled, hfiles]
    rw [hpolled]
    exact (tokens_reading hbase (le_refl _)).1

/-- A read shows nothing of this attempt only where nothing of it is there. -/
theorem bare_of_unmetered {dir : SessionDir} {resume : Option Text} {base : Int × Int}
    (hbase : 0 ≤ base) (h : unmetered resume (reading parse dir base (none, 0, 0)) = true) :
    Bare parse resume base dir := by
  unfold Bare
  by_cases hfiles : dir.files = []
  · have hcalls : (filesUsage parse dir.files).2 ≤ base.2 := by
      rw [hfiles]
      exact hbase.2
    split
    · exact hcalls
    · exact hfiles
  · obtain ⟨first, hread⟩ := reading_of_files parse base (none, 0, 0) hfiles
    rw [hread] at h
    cases resume with
    | none => cases h
    | some sf =>
      have hzero : max ((filesUsage parse dir.files).2 - base.2) 0 = 0 := of_decide_eq_true h
      rw [if_pos Option.isSome_some]
      omega

variable (parse) in
theorem reason_exited (dir : SessionDir) (resume : Option Text) (read : Read) (left : Left) :
    (conclude parse dir resume none read left).run.killedReason =
      if unmetered resume (conclude parse dir resume none read left).read = true then
        some unmeteredKill
      else none := by
  unfold conclude Metered.read
  dsimp only
  rw [Option.isNone_none, Bool.and_true]

variable (parse) in
theorem reason_killed (dir : SessionDir) (resume : Option Text) (why : Text) (read : Read)
    (left : Left) :
    (conclude parse dir resume (some why) read left).run.killedReason = some why := by
  unfold conclude
  dsimp only
  rw [Option.isNone_some, Bool.and_false]
  rfl

/-- The recorded reason follows from what ended the loop. -/
theorem justified_conclude (hrefunds : NoRefunds parse) {limits : Limits} {dir : SessionDir}
    {resume killed : Option Text} {seen : List Look} {last : Look} {left : Left}
    (hcause : Cause limits resume last
      (reading parse (polled (seen ++ [last]) .empty) (baseline parse dir resume) (none, 0, 0))
      killed)
    (hgrows : DirGrows parse (polled (seen ++ [last]) .empty) left.after) :
    Justified parse limits resume (baseline parse dir resume) last
      (polled (seen ++ [last]) .empty)
      (conclude parse dir resume killed
        (reading parse (polled (seen ++ [last]) .empty) (baseline parse dir resume) (none, 0, 0))
        left) := by
  have hbase := baseline_nonneg hrefunds dir resume
  have hspent := spent_polled parse hbase.1 seen last
  have htokens := tokens_conclude hrefunds dir resume killed hgrows
  have hnothing : unmetered resume (reading parse (polled (seen ++ [last]) .empty)
      (baseline parse dir resume) (none, 0, 0)) = true →
      Bare parse resume (baseline parse dir resume) (polled (seen ++ [last]) .empty) :=
    bare_of_unmetered hbase
  generalize reading parse (polled (seen ++ [last]) .empty) (baseline parse dir resume)
    (none, 0, 0) = read at *
  cases killed with
  | none =>
    have hreason := reason_exited parse dir resume read left
    generalize conclude parse dir resume none read left = r at hreason ⊢
    unfold Justified
    cases hbare : unmetered resume r.read with
    | false =>
      rw [hbare, if_neg Bool.false_ne_true] at hreason
      rw [hreason]
      exact ⟨hcause, rfl⟩
    | true =>
      rw [hbare, if_pos rfl] at hreason
      rw [hreason]
      exact Or.inr (Or.inr ⟨rfl, Or.inl ⟨hcause, rfl⟩⟩)
  | some why =>
    have hreason := reason_killed parse dir resume why read left
    generalize conclude parse dir resume (some why) read left = r at hreason htokens ⊢
    unfold Justified
    rw [hreason]
    obtain ⟨hrunning, ⟨rfl, cap, hcap, hover⟩ | ⟨hbelow, hrest⟩⟩ := hcause
    · exact Or.inl ⟨rfl, hrunning, cap, hcap, hover.trans htokens⟩
    · have haffordable : ∀ cap ∈ limits.capTokens,
          spent parse (baseline parse dir resume) last.dir < cap :=
        fun cap hcap => lt_of_le_of_lt hspent (hbelow cap hcap)
      rcases hrest with ⟨rfl, hunmetered, hgrace⟩ | ⟨rfl, hwall⟩
      · exact Or.inr (Or.inr ⟨rfl, Or.inr ⟨hrunning, hgrace, haffordable, hnothing hunmetered⟩⟩)
      · exact Or.inr (Or.inl ⟨rfl, hrunning, hwall, haffordable⟩)

/-- A watched worker is gone by its first look past the wall clock, is settled as its ledgers say,
and was killed for what is recorded: above the cap only where the record shows it, and never
later than the first look that shows it. -/
theorem supervise_justified (hrefunds : NoRefunds parse) (limits : Limits) (dir : SessionDir)
    (resume : Option Text) (left : Left) :
    (∀ looks, (∃ look ∈ looks, look.exited = true ∨ limits.maxWallS ≤ look.wallAt) →
      ∃ r, supervise parse limits dir resume looks left = some r) ∧
    ∀ looks r, supervise parse limits dir resume looks left = some r →
      ∃ seen last rest, looks = seen ++ last :: rest ∧
        (∀ look ∈ seen, Spared limits look (spent parse (baseline parse dir resume) look.dir)) ∧
        (∃ killed, r = spawn parse dir resume (.ran
          ⟨polled (seen ++ [last]) .empty, left.after, killed, left.exitCode, left.output⟩)) ∧
        (DirGrows parse (polled (seen ++ [last]) .empty) left.after →
          Justified parse limits resume (baseline parse dir resume) last
            (polled (seen ++ [last]) .empty) r) := by
  have hbase : 0 ≤ (baseline parse dir resume).1 := (baseline_nonneg hrefunds dir resume).1
  refine ⟨fun looks hends => ?_, fun looks r h => ?_⟩
  · obtain ⟨ended, hended⟩ : ∃ ended,
        watchdog parse limits resume (baseline parse dir resume) looks (none, 0, 0) = some ended :=
      Option.isSome_iff_exists.1 (watchdog_isSome _ hends)
    exact ⟨_, Option.map_eq_some_iff.2 ⟨ended, hended, rfl⟩⟩
  · obtain ⟨⟨killed, read⟩, hwatch, rfl⟩ := Option.map_eq_some_iff.1 h
    have hstart : watchdog parse limits resume (baseline parse dir resume) looks
        (reading parse .empty (baseline parse dir resume) (none, 0, 0)) = some (killed, read) :=
      hwatch
    obtain ⟨seen, last, rest, hlooks, rfl, hcause, hseen⟩ := watchdog_ends hstart
    refine ⟨seen, last, rest, hlooks, fun look hlook => ?_, ⟨killed, rfl⟩,
      justified_conclude hrefunds hcause⟩
    obtain ⟨before, hspared⟩ := hseen look hlook
    have hnonneg : 0 ≤ (reading parse before (baseline parse dir resume) (none, 0, 0)).2.1 :=
      (tokens_reading hbase (le_refl _)).2
    exact ⟨hspared.running, hspared.inTime, fun cap hcap =>
      lt_of_le_of_lt (tokens_reading hbase hnonneg).1 (hspared.affordable cap hcap)⟩

end

theorem noRefunds_readRecord : NoRefunds readRecord := by
  intro line
  unfold lineUsage
  split
  · exact le_refl _
  · rename_i msg hmsg
    obtain ⟨tokens, hread, rfl⟩ := Option.map_eq_some_iff.1 hmsg
    obtain ⟨n, -, hn⟩ := Option.bind_eq_some_iff.1 hread
    obtain rfl : (n : Int) = tokens := Option.some.inj hn
    simp

def oneSession (records : Transcript) : SessionDir where
  files := [("main.jsonl".toList, records)]
  nodup := by simp

theorem dirGrows_oneSession (parse : Text → Option Message) (kept more : Transcript) :
    DirGrows parse (oneSession kept) (oneSession (kept ++ more)) := by
  refine ⟨[("main.jsonl".toList, kept ++ more)], [], List.Perm.refl _, ?_⟩
  exact .cons ⟨rfl, kept, [], more, by simp, rfl, rfl⟩ .nil

def tenTokens : Limits where
  capTokens := some 10
  maxWallS := 3600
  sessionGraceS := 120

/-- After a minute the first call is there, after an hour the second. -/
def twoLooks : List Look := [
  ⟨false, oneSession [callRecord 7], 60, 60⟩,
  ⟨false, oneSession [callRecord 7, callRecord 5], 3600, 3600⟩]

def twoCalls : Left where
  after := oneSession [callRecord 7, callRecord 5]
  exitCode := none
  output := []

theorem supervise_justified_capped : ∃ r,
    supervise readRecord tenTokens .empty none twoLooks twoCalls = some r ∧
      r.run.killedReason = some capped ∧ r.run.tokensNew = 12 ∧
      ∃ last ∈ twoLooks, Justified readRecord tenTokens none 0 last last.dir r := by
  obtain ⟨hends, hjustified⟩ :=
    supervise_justified noRefunds_readRecord tenTokens .empty none twoCalls
  obtain ⟨r, hr⟩ := hends twoLooks
    ⟨_, List.mem_cons_of_mem _ (List.mem_singleton.2 rfl), Or.inr (by decide)⟩
  have hrecord : (supervise readRecord tenTokens .empty none twoLooks twoCalls).map
      (fun r => (r.run.killedReason, r.run.tokensNew)) = some (some capped, 12) := by
    decide +kernel
  rw [hr, Option.map_some] at hrecord
  obtain ⟨hreason, htokens⟩ := Prod.ext_iff.1 (Option.some.inj hrecord)
  refine ⟨r, hr, hreason, htokens, ?_⟩
  obtain ⟨seen, last, rest, hlooks, -, -, hlast⟩ := hjustified twoLooks r hr
  refine ⟨last, by rw [hlooks]; simp, ?_⟩
  -- the loop has ended at the first look or at the second
  rcases seen with _ | ⟨first, _ | ⟨second, seen⟩⟩
  · cases hlooks
    exact hlast (dirGrows_oneSession readRecord [callRecord 7] [callRecord 5])
  · cases hlooks
    exact hlast (dirGrows_oneSession readRecord [callRecord 7, callRecord 5] [])
  · have hlen := congrArg List.length hlooks
    simp [twoLooks] at hlen

end Hunter.Scavenge
