import Hunter.Joined
import Hunter.Prompts.Diff

set_option autoImplicit false

namespace Hunter
open Checked Delimited

/-- The diff, a note in place of one with nothing but whitespace, or the start of a long one with
the number of the characters left out. -/
inductive Shown (diff : Text) : Text → Prop where
  | blank : (∀ c ∈ diff, Text.isWhite c) → Shown diff "(empty diff)".toList
  | whole : (∃ c ∈ diff, ¬ Text.isWhite c) → diff.length ≤ prDiffCapChars → Shown diff diff
  | truncated (start rest : Text) : (∃ c ∈ diff, ¬ Text.isWhite c) → diff = start ++ rest →
      start.length = prDiffCapChars → rest ≠ [] →
      Shown diff (start ++ truncationMarker rest.length)

theorem trim_isEmpty {s : Text} : (Text.trim s).isEmpty ↔ ∀ c ∈ s, Text.isWhite c := by
  simp only [Text.trim, List.isEmpty_reverse, List.isEmpty_iff, List.dropWhile_eq_nil_iff,
    List.mem_reverse]
  constructor
  · intro h
    rw [← List.dropWhile_eq_nil_iff]
    cases hrest : s.dropWhile Text.isWhite with
    | nil => rfl
    | cons c rest =>
      have hc := @head?_dropWhile_not _ Text.isWhite s c (by simp [hrest])
      exact absurd (h c (by simp [hrest])) hc
  · intro h c hc
    exact h c ((List.dropWhile_sublist _).subset hc)

/-- Both cuts are at the boundary in front of the first character left out. -/
theorem cappedDiff_shown (diff : Text) :
    ∃ shown, cappedDiff diff = .ok shown ∧ Shown diff shown := by
  rw [cappedDiff]
  by_cases hblank : (Text.trim diff).isEmpty
  · exact ⟨_, if_pos hblank, .blank (trim_isEmpty.mp hblank)⟩
  · have hink : ∃ c ∈ diff, ¬ Text.isWhite c := by
      rw [trim_isEmpty] at hblank
      push Not at hblank
      exact hblank
    rw [if_neg hblank, charOffset]
    by_cases hlong : prDiffCapChars < diff.length
    · have hsplit := List.take_append_drop prDiffCapChars diff
      have hto : sliceTo diff (bytes (diff.take prDiffCapChars)) =
          .ok (diff.take prDiffCapChars) := by
        have h := sliceTo_append (a := diff.take prDiffCapChars) (b := diff.drop prDiffCapChars)
        rwa [hsplit] at h
      have hfrom : sliceFrom diff (bytes (diff.take prDiffCapChars)) =
          .ok (diff.drop prDiffCapChars) := by
        have h := sliceFrom_append (a := diff.take prDiffCapChars) (b := diff.drop prDiffCapChars)
        rwa [hsplit] at h
      refine ⟨_, ?_, .truncated (diff.take prDiffCapChars) (diff.drop prDiffCapChars) hink
        hsplit.symm (List.length_take_of_le hlong.le) ?_⟩
      · simp only [hlong, if_true, hfrom, hto]
        rfl
      · intro hnil
        have hlen := congrArg List.length hnil
        rw [List.length_drop, List.length_nil] at hlen
        omega
    · refine ⟨diff, ?_, .whole hink (Nat.le_of_not_lt hlong)⟩
      simp only [hlong, if_false]
      rfl

def IsFence (fence : Text) : Prop := ∃ n, 3 ≤ n ∧ fence = List.replicate n '\x60'

theorem isFence_fenceOf (body : Text) : IsFence (fenceOf body) :=
  ⟨max (longestBackticks body) 2 + 1, by omega, rfl⟩

theorem le_longestBackticks {body run : Text}
    (h : run ∈ body.splitOnP fun c => c != '\x60') : run.length ≤ longestBackticks body := by
  have hmem : bytes run ∈ (body.splitOnP fun c => c != '\x60').map bytes :=
    List.mem_map_of_mem h
  have hle : bytes run ≤ longestBackticks body := by
    rw [longestBackticks]
    cases hmax : ((body.splitOnP fun c => c != '\x60').map bytes).max? with
    | none =>
      rw [List.max?_eq_none_iff] at hmax
      rw [hmax] at hmem
      cases hmem
    | some m => exact (List.max?_eq_some_iff.mp hmax).2 _ hmem
  exact length_le_bytes.trans hle

theorem not_fenceOf_infix (body : Text) : ¬ fenceOf body <:+: body := by
  intro h
  obtain ⟨run, hrun, hle⟩ := exists_run h
  have hlongest := le_longestBackticks hrun
  omega

/-- A block's first and last line are its fence, and no line between can end it. -/
structure FencedBlock (block fence : Text) (between : List Text) : Prop where
  ticks : IsFence fence
  lines : block.splitOn '\n' = (fence ++ "diff".toList) :: between ++ [fence]
  holds : ∀ line ∈ between, ¬ fence <:+: line

theorem newline_not_mem_fence {fence : Text} (h : IsFence fence) : '\n' ∉ fence := by
  obtain ⟨n, -, rfl⟩ := h
  simp

theorem fencedBlock_of_body {fence body : Text} (hfence : IsFence fence)
    (hbody : ¬ fence <:+: body) :
    FencedBlock (fence ++ "diff\n".toList ++ body ++ '\n' :: fence) fence
      (body.splitOn '\n') := by
  have hnone := newline_not_mem_fence hfence
  refine ⟨hfence, ?_, fun line hline h => hbody (h.trans (Joined.infix_of_mem_splitOn hline))⟩
  have hfirst : '\n' ∉ fence ++ "diff".toList := by simpa using hnone
  have hblock : fence ++ "diff\n".toList ++ body ++ '\n' :: fence =
      (fence ++ "diff".toList) ++ '\n' :: (body ++ '\n' :: fence) := by simp
  rw [hblock, List.splitOn_append_cons_self_of_not_mem hfirst, List.splitOn_append_cons_self,
    List.splitOn_eq_singleton hnone, List.cons_append]

/-- A diff stays in its fence, whatever it is: the lines between are what is shown of it, with a
newline added where it does not end with one. -/
theorem fencedDiff_holds (diff : Text) :
    ∃ block fence between shown, fencedDiff diff = .ok block ∧ FencedBlock block fence between ∧
      Shown diff shown ∧
      between.flatMap (fun line => line ++ ['\n']) =
        if ['\n'] <:+ shown then shown else shown ++ ['\n'] := by
  obtain ⟨shown, hshown, hspec⟩ := cappedDiff_shown diff
  have hfence := isFence_fenceOf shown
  have hfree := not_fenceOf_infix shown
  by_cases hend : ['\n'] <:+ shown
  · obtain ⟨body, hbody⟩ := hend
    have hfree' : ¬ fenceOf shown <:+: body :=
      fun h => hfree (h.trans (hbody ▸ (List.prefix_append _ _).isInfix))
    refine ⟨_, fenceOf shown, body.splitOn '\n', shown, ?_, fencedBlock_of_body hfence hfree',
      hspec, ?_⟩
    · rw [fencedDiff, hshown]
      simp [bind, Except.bind, pure, Except.pure, ← hbody]
    · rw [if_pos ⟨body, hbody⟩, Joined.flatMap_splitOn, hbody]
  · refine ⟨_, fenceOf shown, shown.splitOn '\n', shown, ?_, fencedBlock_of_body hfence hfree,
      hspec, ?_⟩
    · rw [fencedDiff, hshown]
      simp [bind, Except.bind, pure, Except.pure, hend]
    · rw [if_neg hend, Joined.flatMap_splitOn]

end Hunter
