import Hunter.Calls
import Mathlib
set_option autoImplicit false

namespace Hunter.Scavenge

/-- The integer fields of a `usage` object. -/
structure Usage where
  input : Option Int
  output : Option Int
  cacheWrite : Option Int

/-- The `message` object of a session record. -/
structure Message where
  role : Option Text
  usage : Option Usage

abbrev Transcript := List Text

/-- The `*.jsonl` files of a session directory. -/
structure SessionDir where
  files : List (Text × Transcript)
  nodup : (files.map Prod.fst).Nodup

namespace SessionDir

def empty : SessionDir := ⟨[], List.nodup_nil⟩

def transcript (dir : SessionDir) (name : Text) : Transcript :=
  ((dir.files.find? fun f => f.1 = name).map Prod.snd).getD []

/-- `first_line`: a session's opening record. -/
def firstLine (dir : SessionDir) (name : Text) : Option Text := (dir.transcript name).head?

theorem transcript_of_mem {dir : SessionDir} {name : Text} {file : Transcript}
    (h : (name, file) ∈ dir.files) : dir.transcript name = file := by
  unfold transcript
  cases hfind : dir.files.find? fun f => f.1 = name with
  | none =>
    have := List.find?_eq_none.1 hfind _ h
    simp at this
  | some f =>
    have hname : f.1 = name := by simpa using List.find?_some hfind
    have hmem := List.mem_of_find?_eq_some hfind
    have := List.inj_on_of_nodup_map dir.nodup hmem h hname
    simp [this]

end SessionDir

section
variable (parse : Text → Option Message)

/-- New tokens and calls of one record; `parse` stands for the JSON reader. -/
def lineUsage (line : Text) : Int × Int :=
  match parse line with
  | none => 0
  | some msg =>
    if msg.role = some "assistant".toList then
      match msg.usage with
      | none => 0
      | some u => (u.input.getD 0 + u.output.getD 0 + u.cacheWrite.getD 0, 1)
    else 0

def ledgerUsage (file : Transcript) : Int × Int := (file.map (lineUsage parse)).sum

def filesUsage (files : List (Text × Transcript)) : Int × Int :=
  (files.map fun f => ledgerUsage parse f.2).sum

/-- `ledger_dir_usage`: the run's first session file, and the sum over all. -/
def ledgerDirUsage (dir : SessionDir) : Option (Text × Int × Int) :=
  ((dir.files.map Prod.fst).insertionSort fun a b => a ≤ b).head?.map fun first =>
    (first, filesUsage parse dir.files)

variable {parse}

theorem ledgerUsage_append (a b : Transcript) :
    ledgerUsage parse (a ++ b) = ledgerUsage parse a + ledgerUsage parse b := by
  simp [ledgerUsage]

theorem filesUsage_append (a b : List (Text × Transcript)) :
    filesUsage parse (a ++ b) = filesUsage parse a + filesUsage parse b := by
  simp [filesUsage]

def Counted (usage : Int × Int) : Prop := 0 ≤ usage.2 ∧ (usage.2 = 0 → usage = 0)

theorem counted_sum {list : List (Int × Int)} (h : ∀ u ∈ list, Counted u) : Counted list.sum := by
  induction list with
  | nil => exact ⟨le_refl _, fun _ => rfl⟩
  | cons u rest ih =>
    obtain ⟨hu, hzero⟩ := h u (by simp)
    obtain ⟨hrest, hzero'⟩ := ih fun v hv => h v (by simp [hv])
    rw [List.sum_cons]
    refine ⟨by simp only [Prod.snd_add]; omega, fun hsum => ?_⟩
    simp only [Prod.snd_add] at hsum
    rw [hzero (by omega), hzero' (by omega), add_zero]

theorem counted_lineUsage (line : Text) : Counted (lineUsage parse line) := by
  have hnone : Counted 0 := ⟨le_refl _, fun _ => rfl⟩
  unfold lineUsage
  split
  · exact hnone
  · split
    · split
      · exact hnone
      · exact ⟨Int.one_nonneg, fun h => by cases h⟩
    · exact hnone

variable (parse) in
theorem counted_ledgerUsage (file : Transcript) : Counted (ledgerUsage parse file) :=
  counted_sum fun u hu => by
    obtain ⟨line, -, rfl⟩ := List.mem_map.1 hu
    exact counted_lineUsage line

variable (parse) in
theorem counted_filesUsage (files : List (Text × Transcript)) :
    Counted (filesUsage parse files) :=
  counted_sum fun u hu => by
    obtain ⟨f, -, rfl⟩ := List.mem_map.1 hu
    exact counted_ledgerUsage parse f.2

variable (parse) in
theorem ledgerDirUsage_eq {dir : SessionDir} (h : dir.files ≠ []) :
    ∃ first, ledgerDirUsage parse dir = some (first, filesUsage parse dir.files) := by
  unfold ledgerDirUsage
  cases hsorted : (dir.files.map Prod.fst).insertionSort fun a b => a ≤ b with
  | nil =>
    have hlen := List.length_insertionSort (fun a b : Text => a ≤ b) (dir.files.map Prod.fst)
    rw [hsorted, List.length_map] at hlen
    exact absurd (List.length_eq_zero_iff.1 hlen.symm) h
  | cons first rest => exact ⟨first, rfl⟩

variable (parse)

/-- What the worker's process leaves: the directory at the last poll that found a ledger and
after its exit, why the watchdog killed it, its exit code and the tail of its output. -/
structure Child where
  polled : SessionDir
  after : SessionDir
  killed : Option Text
  exitCode : Option Int
  output : Text

inductive Worker
  | dirUnusable (path error : Text)
  | unspawned (error : Text)
  | ran (child : Child)

structure Metered where
  run : RunResult
  calls : Int

def refusal (dir : Option SessionDir) (sessionFile : Text) : Option Text :=
  match dir with
  | none => some "session directory is gone".toList
  | some dir =>
    if (dir.transcript sessionFile).isEmpty then some "session file is missing or empty".toList
    else none

def resumeUnavailable (sessionFile why : Text) : Metered where
  run := {
    killedReason := some "resume-unavailable".toList
    exitCode := none
    tokensNew := 0
    sessionFile := none
    stdoutTail := "cannot resume ".toList ++ sessionFile ++ ": ".toList ++ why }
  calls := 0

/-- What a resumed attempt's directory held before it. -/
def baseline (dir : SessionDir) (resume : Option Text) : Int × Int :=
  if resume.isSome then ((ledgerDirUsage parse dir).map Prod.snd).getD 0 else 0

/-- Whether the named session's opening record is another one now. -/
def resumeLost (dir after : SessionDir) (resume : Option Text) : Bool :=
  resume.any fun sf => decide (after.firstLine sf ≠ dir.firstLine sf)

/-- A ledger read: what is there beyond the baseline, or what was read before. -/
def reading (dir : SessionDir) (base : Int × Int) (before : Option Text × Int × Int) :
    Option Text × Int × Int :=
  match ledgerDirUsage parse dir with
  | none => before
  | some (path, usage) => (some path, max (usage.1 - base.1) 0, max (usage.2 - base.2) 0)

def settle (dir : SessionDir) (resume : Option Text) (child : Child) : Metered :=
  let base := baseline parse dir resume
  let polled := reading parse child.polled base (none, 0, 0)
  let lost := resumeLost dir child.after resume
  let final := reading parse child.after (if lost then 0 else base) polled
  let unmetered := if resume.isSome then decide (final.2.2 = 0) else final.1.isNone
  { run := {
      killedReason :=
        if unmetered && child.killed.isNone then some "unmetered".toList else child.killed
      exitCode := child.exitCode
      tokensNew := final.2.1
      sessionFile := final.1
      stdoutTail := if lost then "[resume-lost] ".toList ++ child.output else child.output }
    calls := final.2.2 }

def noWorker (killedReason : Option Text) (stdoutTail : Text) : Metered where
  run := {
    killedReason
    exitCode := some 127
    tokensNew := 0
    sessionFile := none
    stdoutTail }
  calls := 0

def spawn (dir : SessionDir) (resume : Option Text) : Worker → Metered
  | .dirUnusable path error =>
    noWorker (some "unmetered".toList)
      ("session dir ".toList ++ path ++ " unusable: ".toList ++ error)
  | .unspawned error => noWorker none ("spawn error: ".toList ++ error)
  | .ran child => settle parse dir resume child

def runWorker (dir : Option SessionDir) (resume : Option Text) (worker : Worker) : Metered :=
  match resume with
  | some sf =>
    match refusal dir sf with
    | some why => resumeUnavailable sf why
    | none => spawn parse (dir.getD .empty) (some sf) worker
  | none => spawn parse (dir.getD .empty) none worker

end

end Hunter.Scavenge
