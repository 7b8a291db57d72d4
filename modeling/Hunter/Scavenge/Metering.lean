import Hunter.Scavenge.Harness
set_option autoImplicit false

namespace Hunter.Scavenge

/-- The named transcript goes on, or a fresh session is written over it. -/
inductive Change
  | continued (written : Transcript)
  | replaced (fresh : Transcript)

namespace Change

def apply (old : Transcript) : Change → Transcript
  | continued written => old ++ written
  | replaced fresh => fresh

def records : Change → Transcript
  | continued written => written
  | replaced fresh => fresh

end Change

/-- A resumed worker's work: its source has records, and the files it adds are new. -/
structure Work (dir : SessionDir) (named : Text) where
  change : Change
  added : List (Text × Transcript)
  nodup : ((dir.files ++ added).map Prod.fst).Nodup
  source : dir.transcript named ≠ []

namespace Work
variable {dir : SessionDir} {named : Text}

def rewrite (work : Work dir named) (f : Text × Transcript) : Text × Transcript :=
  if f.1 = named then (f.1, work.change.apply f.2) else f

def after (work : Work dir named) : SessionDir where
  files := dir.files.map work.rewrite ++ work.added
  nodup := by
    have hname : Prod.fst ∘ work.rewrite = Prod.fst := by
      funext f
      simp only [Function.comp_apply, rewrite]
      split <;> rfl
    simpa [List.map_map, hname] using work.nodup

def others (_ : Work dir named) : List (Text × Transcript) :=
  dir.files.filter fun f => f.1 ≠ named

section
variable (parse : Text → Option Message)

def written (work : Work dir named) : Int × Int :=
  ledgerUsage parse work.change.records + filesUsage parse work.added

/-- `run_worker` over a worker that does this work. -/
def metered (work : Work dir named) (child : Child) : Metered :=
  runWorker parse (some dir) (some named) (.ran { child with after := work.after })

/-- The attempt is billed for its own records, and for no others. -/
def Exact (work : Work dir named) (child : Child) : Prop :=
  ((work.metered parse child).run.tokensNew, (work.metered parse child).calls) =
    work.written parse

/-- A continued transcript; a fresh one with another opening record, no other transcript
holding a call; or a fresh one over a transcript that held no call. -/
def Attributable (work : Work dir named) : Prop :=
  0 ≤ (work.written parse).1 ∧
    match work.change with
    | .continued _ => True
    | .replaced fresh =>
      if fresh.head? = dir.firstLine named then
        (ledgerUsage parse (dir.transcript named)).2 = 0 ∨
          (work.written parse).2 = 0 ∧ 0 ≤ (ledgerUsage parse (dir.transcript named)).1
      else (filesUsage parse work.others).2 = 0

end

variable {parse : Text → Option Message}

theorem mem_source (work : Work dir named) :
    (named, dir.transcript named) ∈ dir.files := by
  have hsource := work.source
  unfold SessionDir.transcript at hsource ⊢
  cases hfind : dir.files.find? fun f => f.1 = named with
  | none =>
    rw [hfind] at hsource
    exact absurd rfl hsource
  | some f =>
    have hname : f.1 = named := by simpa using List.find?_some hfind
    have hmem := List.mem_of_find?_eq_some hfind
    rw [← hname]
    exact hmem

theorem sum_files (work : Work dir named) (g : Text × Transcript → Int × Int) :
    (dir.files.map g).sum = g (named, dir.transcript named) + (work.others.map g).sum := by
  have hmem := work.mem_source
  have hnodup := dir.nodup
  unfold others
  generalize dir.transcript named = old at hmem
  generalize dir.files = files at hmem hnodup
  induction files with
  | nil => cases hmem
  | cons f rest ih =>
    rw [List.map_cons, List.nodup_cons] at hnodup
    by_cases hf : f.1 = named
    · have hrest : ∀ other ∈ rest, other.1 ≠ named := fun other hother hname =>
        hnodup.1 (List.mem_map.2 ⟨other, hother, hname.trans hf.symm⟩)
      have hold : f = (named, old) := by
        rcases List.mem_cons.1 hmem with h | h
        · exact h.symm
        · exact absurd rfl (hrest _ h)
      rw [List.filter_cons_of_neg (by simp [hf]), List.filter_eq_self.2 (by simpa using hrest),
        List.map_cons, List.sum_cons, hold]
    · have hmem' : (named, old) ∈ rest := by
        rcases List.mem_cons.1 hmem with h | h
        · exact absurd (by rw [← h]) hf
        · exact h
      rw [List.filter_cons_of_pos (by simp [hf]), List.map_cons, List.map_cons, List.sum_cons,
        List.sum_cons, ih hmem' hnodup.2, add_left_comm]

theorem filesUsage_before (work : Work dir named) : filesUsage parse dir.files =
    ledgerUsage parse (dir.transcript named) + filesUsage parse work.others :=
  work.sum_files fun f => ledgerUsage parse f.2

theorem filesUsage_after (work : Work dir named) : filesUsage parse work.after.files =
    ledgerUsage parse (work.change.apply (dir.transcript named)) +
      filesUsage parse work.others + filesUsage parse work.added := by
  rw [after, filesUsage_append, filesUsage, List.map_map, work.sum_files]
  congr 2
  · simp [rewrite]
  · rw [filesUsage]
    refine congrArg List.sum (List.map_congr_left fun f hf => ?_)
    have hne : f.1 ≠ named := by simpa using (List.mem_filter.1 hf).2
    simp [rewrite, hne]

theorem transcript_after (work : Work dir named) :
    work.after.transcript named = work.change.apply (dir.transcript named) := by
  refine SessionDir.transcript_of_mem (List.mem_append_left _ (List.mem_map.2 ?_))
  exact ⟨_, work.mem_source, by simp [rewrite]⟩

theorem resumeLost_iff (work : Work dir named) : resumeLost dir work.after (some named) = true ↔
    ∃ fresh, work.change = .replaced fresh ∧ fresh.head? ≠ dir.firstLine named := by
  simp only [resumeLost, Option.any_some, decide_eq_true_eq, SessionDir.firstLine,
    work.transcript_after]
  cases work.change with
  | continued written =>
    have hsource := work.source
    cases hold : dir.transcript named with
    | nil => exact absurd hold hsource
    | cons line rest => simp [Change.apply]
  | replaced fresh => simp [Change.apply]

def deducted (parse : Text → Option Message) (work : Work dir named) : Int × Int :=
  if resumeLost dir work.after (some named) then 0 else filesUsage parse dir.files

variable (parse) in
theorem metered_eq (work : Work dir named) (child : Child) :
    (work.metered parse child).run.tokensNew =
        max ((filesUsage parse work.after.files).1 - (work.deducted parse).1) 0 ∧
      (work.metered parse child).calls =
        max ((filesUsage parse work.after.files).2 - (work.deducted parse).2) 0 := by
  have hfiles : dir.files ≠ [] := fun h => by simpa [h] using work.mem_source
  have hafter : work.after.files ≠ [] := fun h =>
    hfiles (List.map_eq_nil_iff.1 (List.append_eq_nil_iff.1 h).1)
  obtain ⟨first, hbefore⟩ := ledgerDirUsage_eq parse hfiles
  obtain ⟨first', hread⟩ := ledgerDirUsage_eq parse hafter
  have hsource : refusal (some dir) named = none := by
    simp [refusal, work.source]
  simp only [metered, runWorker, spawn, hsource, Option.getD_some, settle, reading, hread, baseline,
    hbefore, Option.isSome_some, if_true, Option.map_some, deducted]
  exact ⟨trivial, trivial⟩

variable (parse) in
theorem counted_written (work : Work dir named) : Counted (work.written parse) := by
  obtain ⟨hrecords, hrecords'⟩ := counted_ledgerUsage parse work.change.records
  obtain ⟨hadded, hadded'⟩ := counted_filesUsage parse work.added
  refine ⟨add_nonneg hrecords hadded, fun h => ?_⟩
  simp only [written, Prod.snd_add] at h
  rw [written, hrecords' (by omega), hadded' (by omega), add_zero]

/-- What is billed beyond the attempt's records: the others when the resume is lost, less the
named transcript when it was replaced unnoticed. -/
def surplus (parse : Text → Option Message) (work : Work dir named) : Int × Int :=
  match work.change with
  | .continued _ => 0
  | .replaced fresh =>
    if fresh.head? = dir.firstLine named then -ledgerUsage parse (dir.transcript named)
    else filesUsage parse work.others

variable (parse) in
theorem filesUsage_surplus (work : Work dir named) :
    filesUsage parse work.after.files - work.deducted parse =
      work.written parse + work.surplus parse := by
  rw [work.filesUsage_after, deducted, surplus, written]
  have hlost := work.resumeLost_iff
  cases hchange : work.change with
  | continued written =>
    have hkept : resumeLost dir work.after (some named) = false := by
      simpa [hchange] using hlost
    rw [hkept, work.filesUsage_before]
    simp only [Change.apply, Change.records, ledgerUsage_append, Bool.false_eq_true, if_false]
    abel
  | replaced fresh =>
    simp only [hchange, Change.replaced.injEq, exists_eq_left'] at hlost
    by_cases hfresh : fresh.head? = dir.firstLine named
    · have hkept : resumeLost dir work.after (some named) = false := by
        simpa [hfresh] using hlost
      rw [hkept, work.filesUsage_before]
      simp only [Change.apply, Change.records, Bool.false_eq_true, if_false, hfresh, if_true]
      abel
    · rw [hlost.2 hfresh]
      simp only [Change.apply, Change.records, if_true, hfresh, if_false]
      abel

/-- A bill is exact iff the attempt's records alone are what is left of the directory. -/
theorem exact_iff (work : Work dir named) (child : Child) :
    work.Exact parse child ↔ work.Attributable parse := by
  obtain ⟨htokens, hcalls⟩ := work.metered_eq parse child
  obtain ⟨hwritten, hwritten'⟩ := work.counted_written parse
  obtain ⟨hold, hold'⟩ := counted_ledgerUsage parse (dir.transcript named)
  obtain ⟨hothers, hothers'⟩ := counted_filesUsage parse work.others
  have hsurplus := work.filesUsage_surplus parse
  have hfst := congrArg Prod.fst hsurplus
  have hsnd := congrArg Prod.snd hsurplus
  simp only [Prod.fst_sub, Prod.snd_sub, Prod.fst_add, Prod.snd_add] at hfst hsnd
  rw [Exact, htokens, hcalls, hfst, hsnd, Prod.ext_iff]
  unfold surplus Attributable
  cases hchange : work.change with
  | continued written =>
    simp only [Prod.fst_zero, Prod.snd_zero, add_zero, and_true]
    omega
  | replaced fresh =>
    by_cases hfresh : fresh.head? = dir.firstLine named
    · simp only [hfresh, if_true, Prod.fst_neg, Prod.snd_neg]
      by_cases hnone : (ledgerUsage parse (dir.transcript named)).2 = 0
      · have htokens' := congrArg Prod.fst (hold' hnone)
        simp only [Prod.fst_zero] at htokens'
        omega
      · by_cases hquiet : (work.written parse).2 = 0
        · have hfree := congrArg Prod.fst (hwritten' hquiet)
          simp only [Prod.fst_zero] at hfree
          omega
        · omega
    · simp only [hfresh, if_false]
      by_cases hnone : (filesUsage parse work.others).2 = 0
      · have hfree := congrArg Prod.fst (hothers' hnone)
        simp only [Prod.fst_zero] at hfree
        omega
      · omega

end Work

def callRecord (tokens : Nat) : Text :=
  "\x7b\"message\":\x7b\"role\":\"assistant\",\"usage\":\x7b\"output\":".toList ++
    (toString tokens).toList ++ "\x7d\x7d\x7d".toList

def readRecord (line : Text) : Option Message :=
  ([7, 5].find? fun tokens => line = callRecord tokens).map fun tokens =>
    ⟨some "assistant".toList, some ⟨none, some tokens, none⟩⟩

def openingRecord (id : Text) : Text :=
  "\x7b\"type\":\"session\",\"id\":\"".toList ++ id ++ "\"\x7d".toList

def nestedDir : SessionDir where
  files := [
    ("main.jsonl".toList, [openingRecord ['1']]),
    ("nested.jsonl".toList, [callRecord 7])]
  nodup := by decide

def startedOver : Work nestedDir "main.jsonl".toList where
  change := .replaced [openingRecord ['2'], callRecord 5]
  added := []
  nodup := by decide
  source := by decide +kernel

/-- Five tokens of one call are billed as twelve of two: the nested session is paid again. -/
theorem nested_rebilled :
    startedOver.written readRecord = (5, 1) ∧
      let billed := startedOver.metered readRecord
        ⟨startedOver.after, startedOver.after, none, some 0, "done".toList⟩
      billed.run.tokensNew = 12 ∧ billed.calls = 2 ∧
        billed.run.stdoutTail = "[resume-lost] done".toList := by
  decide +kernel

end Hunter.Scavenge
