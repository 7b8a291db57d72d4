import Hunter.Elide
import Hunter.Prompts.Feedback

set_option autoImplicit false

namespace Hunter
open Checked Forge

def blockSize (item : FeedbackItem) : Nat := bytes item.block + 2

/-- The items in the order of their texts, split into the elided and the kept. -/
def shownFeedback (pr : PrView) (voice : Voice) (cap : Nat) :
    List FeedbackItem × List FeedbackItem :=
  Elide.cut blockSize cap ((feedbackItems pr voice).insertionSort (· ≤ ·))

def printedFeedback (voice : Voice) (elided : Nat) (kept : List FeedbackItem) : Text :=
  if kept = [] then noFeedback voice
  else ['\n', '\n'].intercalate
    ((if 0 < elided then [elidedNotice elided] else []) ++ kept.map FeedbackItem.block)

theorem dropOldest_map {cap : Nat} {items : List FeedbackItem} {dropped : Nat} :
    dropOldest cap (items.map FeedbackItem.block) dropped =
      ((Elide.cut blockSize cap items).2.map FeedbackItem.block,
        dropped + (Elide.cut blockSize cap items).1.length) := by
  induction items generalizing dropped with
  | nil => rfl
  | cons item items ih =>
    cases items with
    | nil => rfl
    | cons next items =>
      have hsum : ((item :: next :: items).map FeedbackItem.block).map (fun b => bytes b + 2) =
          (item :: next :: items).map blockSize := by
        rw [List.map_map]
        rfl
      simp only [List.map_cons] at hsum ih
      simp only [List.map_cons, dropOldest, hsum]
      by_cases hcap : cap < Elide.total blockSize (item :: next :: items)
      · have hcut : cap < (blockSize item :: blockSize next :: items.map blockSize).sum := hcap
        rw [if_pos hcut, ih]
        simp only [Elide.cut, ne_eq, reduceCtorEq, not_false_eq_true, hcap, and_self, if_true,
          List.length_cons]
        rw [Nat.add_right_comm, Nat.add_assoc]
      · have hcut : ¬ cap < (blockSize item :: blockSize next :: items.map blockSize).sum := hcap
        rw [if_neg hcut, Elide.cut, if_neg fun h => hcap h.2]
        rfl

theorem feedbackBlocks_eq (pr : PrView) (voice : Voice) (cap : Nat) :
    feedbackBlocks pr voice cap =
      printedFeedback voice (shownFeedback pr voice cap).1.length
        (shownFeedback pr voice cap).2 := by
  simp only [feedbackBlocks, dropOldest_map, Nat.zero_add]
  rw [← shownFeedback, printedFeedback]
  cases hkept : (shownFeedback pr voice cap).2 with
  | nil =>
    have helided : (shownFeedback pr voice cap).1 = [] := Elide.nil_of_kept_nil hkept
    simp [helided]
  | cons item kept =>
    by_cases helided : 0 < (shownFeedback pr voice cap).1.length
    · simp [helided]
    · simp [helided]

def NoNewer (a b : FeedbackItem) : Prop :=
  ∀ x y, isoMs a.ts = .ok x → isoMs b.ts = .ok y → x ≤ y

theorem NoNewer.refl (a : FeedbackItem) : NoNewer a a := by
  intro x y hx hy
  rw [hx] at hy
  exact (Except.ok.inj hy).le

/-- The voice's items are shown oldest first, the oldest elided and counted where not all fit. -/
structure ShownInOrder (pr : PrView) (voice : Voice) (cap : Nat)
    (elided kept : List FeedbackItem) : Prop where
  complete : (elided ++ kept).Perm (feedbackItems pr voice)
  printed : feedbackBlocks pr voice cap = printedFeedback voice elided.length kept
  nondecreasing : kept.Pairwise NoNewer
  oldest : ∀ e ∈ elided, ∀ k ∈ kept, NoNewer e k
  fits : kept.length ≤ 1 ∨ (kept.map blockSize).sum ≤ cap

def Chronological (pr : PrView) (voice : Voice) (cap : Nat) : Prop :=
  ShownInOrder pr voice cap (shownFeedback pr voice cap).1 (shownFeedback pr voice cap).2

/-- An item with a smaller text is no newer than one that fits with all greater ones, or that is
the greatest. -/
def TextTellsTime (pr : PrView) (voice : Voice) (cap : Nat) : Prop :=
  ∀ a ∈ feedbackItems pr voice, ∀ b ∈ feedbackItems pr voice, a < b →
    Elide.Within blockSize cap (feedbackItems pr voice) b → NoNewer a b

theorem chronological_iff_ordered {pr : PrView} {voice : Voice} {cap : Nat} :
    Chronological pr voice cap ↔
      (shownFeedback pr voice cap).2.Pairwise NoNewer ∧
        ∀ e ∈ (shownFeedback pr voice cap).1, ∀ k ∈ (shownFeedback pr voice cap).2,
          NoNewer e k := by
  constructor
  · intro h
    exact ⟨h.nondecreasing, h.oldest⟩
  · rintro ⟨hkept, helided⟩
    have hperm := List.perm_insertionSort (· ≤ ·) (feedbackItems pr voice)
    refine ⟨?_, feedbackBlocks_eq pr voice cap, hkept, helided, Elide.cut_fits⟩
    rw [shownFeedback, Elide.cut_append]
    exact hperm

/-- Feedback is in the order of time exactly if the texts of its timestamps are. -/
theorem feedback_chronological_iff (pr : PrView) (voice : Voice) (cap : Nat) :
    Chronological pr voice cap ↔ TextTellsTime pr voice cap := by
  have hperm := List.perm_insertionSort (· ≤ ·) (feedbackItems pr voice)
  have hsorted := List.pairwise_insertionSort (· ≤ ·) (feedbackItems pr voice)
  rw [chronological_iff_ordered, shownFeedback, Elide.cut_ordered_iff NoNewer.refl hsorted]
  simp only [TextTellsTime, hperm.mem_iff, Elide.Within.perm hperm]

/-- Two notes of the night in which summer time ends, 45 minutes apart. -/
def summerTimeEnds : PrView :=
  { comments :=
      [⟨['1'], some ⟨"mia".toList⟩, "please rename".toList,
          "2024-10-27T02:30:00.000+02:00".toList, .maintainer⟩,
        ⟨['2'], some ⟨"mia".toList⟩, "never mind".toList,
          "2024-10-27T02:15:00.000+01:00".toList, .maintainer⟩] }

/-- The later note has the smaller text, and is shown first. -/
theorem summerTimeEnds_not_chronological : ¬ Chronological summerTimeEnds .maintainer 8000 := by
  intro h
  have hshown : (shownFeedback summerTimeEnds .maintainer 8000).2 =
      [⟨"2024-10-27T02:15:00.000+01:00".toList, "mia".toList, "never mind".toList⟩,
        ⟨"2024-10-27T02:30:00.000+02:00".toList, "mia".toList, "please rename".toList⟩] := by
    decide +kernel
  have hordered := h.nondecreasing
  rw [hshown] at hordered
  have hpair := (List.pairwise_cons.mp hordered).1 _ (List.mem_singleton.mpr rfl)
  have hlate : isoMs "2024-10-27T02:15:00.000+01:00".toList = .ok 1729991700000 := by
    decide +kernel
  have hearly : isoMs "2024-10-27T02:30:00.000+02:00".toList = .ok 1729989000000 := by
    decide +kernel
  have hle := hpair _ _ hlate hearly
  omega

end Hunter
