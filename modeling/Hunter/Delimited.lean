import Mathlib.Data.List.DropRight
import Mathlib.Data.List.Infix
import Mathlib.Logic.Function.Iterate
set_option autoImplicit false

/-! Lists read around a delimiting pattern: at its first occurrence, at its last, off the end. -/

namespace Delimited
variable {α : Type}

section
variable {p : α → Bool} {run rest s : List α}

theorem takeWhile_stop (hrun : ∀ c ∈ run, p c) (hrest : ∀ c ∈ rest.head?, ¬ p c) :
    (run ++ rest).takeWhile p = run := by
  have hstop : rest.takeWhile p = [] := by
    cases rest with
    | nil => rfl
    | cons c rest =>
      have hc := hrest c (by simp)
      simp [hc]
  rw [List.takeWhile_append_of_pos hrun, hstop, List.append_nil]

theorem rtakeWhile_stop (hrun : ∀ c ∈ run, p c) (hrest : ∀ c ∈ rest.getLast?, ¬ p c) :
    (rest ++ run).rtakeWhile p = run := by
  have hreverse := @takeWhile_stop α p run.reverse rest.reverse (by simpa using hrun)
    (by simpa using hrest)
  rw [List.rtakeWhile, List.reverse_append, hreverse, List.reverse_reverse]

theorem head?_dropWhile_not : ∀ c ∈ (s.dropWhile p).head?, ¬ p c := by
  induction s with
  | nil => simp
  | cons c s ih =>
    by_cases hc : p c
    · simpa [List.dropWhile, hc] using ih
    · simp [List.dropWhile, hc]

end

variable [DecidableEq α]

/-- A run at the start of a list is at the start of its first piece. -/
theorem exists_head_run {c : α} {n : Nat} {s : List α} (h : List.replicate n c <+: s) :
    ∃ run rest, s.splitOnP (fun x => x != c) = run :: rest ∧ n ≤ run.length := by
  induction n generalizing s with
  | zero =>
    obtain ⟨run, rest, hpieces⟩ :=
      List.exists_cons_of_ne_nil (List.splitOnP_ne_nil (fun x => x != c) s)
    exact ⟨run, rest, hpieces, Nat.zero_le _⟩
  | succ n ih =>
    obtain ⟨after, rfl⟩ := h
    obtain ⟨run, rest, hpieces, hle⟩ := ih (List.prefix_append (List.replicate n c) after)
    refine ⟨c :: run, rest, ?_, Nat.succ_le_succ hle⟩
    rw [List.replicate_succ, List.cons_append, List.splitOnP_cons_eq_if_modifyHead, hpieces]
    simp

theorem exists_run {c : α} {n : Nat} {s : List α} (h : List.replicate n c <:+: s) :
    ∃ run ∈ s.splitOnP (fun x => x != c), n ≤ run.length := by
  induction s with
  | nil =>
    have hnil : List.replicate n c <+: [] := by
      rw [List.infix_nil.mp h]
    obtain ⟨run, rest, hpieces, hle⟩ := exists_head_run hnil
    exact ⟨run, by simp [hpieces], hle⟩
  | cons x s ih =>
    rcases List.infix_cons_iff.mp h with hprefix | hinfix
    · obtain ⟨run, rest, hpieces, hle⟩ := exists_head_run hprefix
      exact ⟨run, by simp [hpieces], hle⟩
    · obtain ⟨run, hrun, hle⟩ := ih hinfix
      obtain ⟨first, rest, hpieces⟩ :=
        List.exists_cons_of_ne_nil (List.splitOnP_ne_nil (fun x => x != c) s)
      rw [hpieces] at hrun
      rw [List.splitOnP_cons_eq_if_modifyHead, hpieces]
      by_cases hx : x = c
      · obtain rfl | hrest := List.mem_cons.mp hrun
        · exact ⟨x :: run, by simp [hx], hle.trans (by simp)⟩
        · exact ⟨run, by simp [hx, hrest], hle⟩
      · exact ⟨run, by simpa [hx] using Or.inr (List.mem_cons.mp hrun), hle⟩

def splitOnce (pat : List α) : List α → Option (List α × List α)
  | [] => if pat = [] then some ([], []) else none
  | x :: s =>
    if pat <+: x :: s then some ([], (x :: s).drop pat.length)
    else (splitOnce pat s).map fun p => (x :: p.1, p.2)

def rsplitOnce (pat s : List α) : Option (List α × List α) :=
  (splitOnce pat.reverse s.reverse).map fun p => (p.2.reverse, p.1.reverse)

def stripPrefix (pat s : List α) : Option (List α) :=
  if pat <+: s then some (s.drop pat.length) else none

def stripEnd (pat s : List α) : List α := if pat <:+ s then s.rdrop pat.length else s

def trimEnd (pat s : List α) : List α := (stripEnd pat)^[s.length] s

section
variable {pat s a b a' : List α} {c : α}

theorem eq_of_splitOnce (h : splitOnce pat s = some (a, b)) : s = a ++ pat ++ b := by
  induction s generalizing a with
  | nil =>
    by_cases hpat : pat = []
    · simp [splitOnce, hpat] at h
      simp [h, hpat]
    · simp [splitOnce, hpat] at h
  | cons x s ih =>
    by_cases hpre : pat <+: x :: s
    · obtain ⟨rest, hrest⟩ := hpre
      simp [splitOnce, ← hrest] at h
      simp [h, ← hrest]
    · simp only [splitOnce, hpre, if_false, Option.map_eq_some_iff, Prod.mk.injEq] at h
      obtain ⟨⟨a₀, b₀⟩, hs, rfl, rfl⟩ := h
      simp [ih hs]

theorem splitOnce_first (h : splitOnce pat s = some (a, b)) (ha' : a' ++ pat <+: s) :
    a.length ≤ a'.length := by
  induction s generalizing a a' with
  | nil =>
    by_cases hpat : pat = []
    · simp [splitOnce, hpat] at h
      simp [h]
    · simp [splitOnce, hpat] at h
  | cons x s ih =>
    by_cases hpre : pat <+: x :: s
    · simp [splitOnce, hpre] at h
      simp [h]
    · simp only [splitOnce, hpre, if_false, Option.map_eq_some_iff, Prod.mk.injEq] at h
      obtain ⟨⟨a₀, b₀⟩, hs, rfl, rfl⟩ := h
      cases a' with
      | nil => exact absurd ha' hpre
      | cons y a' =>
        have hle := ih hs (List.cons_prefix_cons.mp ha').2
        simp only [List.length_cons]
        omega

theorem not_infix_of_splitOnce (hpat : pat ≠ []) (h : splitOnce pat s = some (a, b)) :
    ¬ pat <:+: a := by
  rintro ⟨a₁, a₂, rfl⟩
  have hearlier : a₁ ++ pat <+: s := ⟨a₂ ++ pat ++ b, by simp [eq_of_splitOnce h]⟩
  have hle := splitOnce_first h hearlier
  have hpos := List.length_pos_iff.mpr hpat
  simp only [List.length_append] at hle
  omega

theorem splitOnce_isSome (h : pat <:+: s) : (splitOnce pat s).isSome := by
  induction s with
  | nil =>
    have hpat : pat = [] := List.infix_nil.mp h
    simp [splitOnce, hpat]
  | cons x s ih =>
    by_cases hpre : pat <+: x :: s
    · simp [splitOnce, hpre]
    · have hs : pat <:+: s := by
        rcases List.infix_cons_iff.mp h with hx | hs
        · exact absurd hx hpre
        · exact hs
      simp [splitOnce, hpre, ih hs]

theorem splitOnce_eq_none : splitOnce pat s = none ↔ ¬ pat <:+: s := by
  constructor
  · intro h hpat
    have := splitOnce_isSome hpat
    simp [h] at this
  · intro h
    cases hs : splitOnce pat s with
    | none => rfl
    | some p =>
      obtain ⟨a, b⟩ := p
      exact absurd ⟨a, b, (eq_of_splitOnce hs).symm⟩ h

theorem splitOnce_eq_some :
    splitOnce pat s = some (a, b) ↔
      s = a ++ pat ++ b ∧ ∀ a', a' ++ pat <+: s → a.length ≤ a'.length := by
  constructor
  · intro h
    exact ⟨eq_of_splitOnce h, fun a' => splitOnce_first h⟩
  · rintro ⟨rfl, hfirst⟩
    have hsome : (splitOnce pat (a ++ pat ++ b)).isSome := splitOnce_isSome ⟨a, b, rfl⟩
    obtain ⟨⟨a₀, b₀⟩, h⟩ := Option.isSome_iff_exists.mp hsome
    have heq := eq_of_splitOnce h
    have hle := splitOnce_first h (List.prefix_append (a ++ pat) b)
    have hge := hfirst a₀ (by rw [heq]; exact List.prefix_append _ b₀)
    have hlen : a.length = a₀.length := by omega
    simp only [List.append_assoc] at heq
    obtain ⟨rfl, hrest⟩ := List.append_inj heq hlen
    obtain rfl := List.append_cancel_left hrest
    exact h

theorem splitOnce_singleton : splitOnce [c] s = some (a, b) ↔ s = a ++ c :: b ∧ c ∉ a := by
  rw [splitOnce_eq_some]
  constructor
  · rintro ⟨rfl, hfirst⟩
    refine ⟨by simp, fun hc => ?_⟩
    obtain ⟨a₁, a₂, rfl⟩ := List.append_of_mem hc
    have hle := hfirst a₁ ⟨a₂ ++ c :: b, by simp⟩
    simp only [List.length_append, List.length_cons] at hle
    omega
  · rintro ⟨rfl, hc⟩
    refine ⟨by simp, fun a' hpre => ?_⟩
    by_contra hlt
    obtain ⟨rest, hrest⟩ := hpre
    obtain ⟨a₂, ha₂⟩ : a' ++ [c] <+: a := by
      refine List.prefix_of_prefix_length_le ⟨rest, hrest⟩ ⟨c :: b, rfl⟩ ?_
      simp only [List.length_append, List.length_singleton]
      omega
    exact hc (by simp [← ha₂])

theorem splitOnce_singleton_eq_none : splitOnce [c] s = none ↔ c ∉ s := by
  rw [splitOnce_eq_none, List.singleton_infix_iff]

end

section
variable {pat s a b b' : List α} {c : α}

theorem rsplitOnce_eq_reverse :
    rsplitOnce pat s = some (a, b) ↔
      splitOnce pat.reverse s.reverse = some (b.reverse, a.reverse) := by
  constructor
  · intro h
    simp only [rsplitOnce, Option.map_eq_some_iff, Prod.mk.injEq] at h
    obtain ⟨⟨b₀, a₀⟩, hs, rfl, rfl⟩ := h
    simpa using hs
  · intro h
    simp [rsplitOnce, h]

theorem rsplitOnce_eq_none : rsplitOnce pat s = none ↔ ¬ pat <:+: s := by
  rw [rsplitOnce, Option.map_eq_none_iff, splitOnce_eq_none, List.reverse_infix]

theorem rsplitOnce_eq_some :
    rsplitOnce pat s = some (a, b) ↔
      s = a ++ pat ++ b ∧ ∀ b', pat ++ b' <:+ s → b.length ≤ b'.length := by
  rw [rsplitOnce_eq_reverse, splitOnce_eq_some]
  constructor
  · rintro ⟨heq, hfirst⟩
    have hs := congrArg List.reverse heq
    simp only [List.reverse_reverse, List.reverse_append] at hs
    refine ⟨by simpa using hs, fun b' hsuf => ?_⟩
    have hpre := hfirst b'.reverse (by simpa using List.reverse_prefix.mpr hsuf)
    simpa using hpre
  · rintro ⟨rfl, hlast⟩
    refine ⟨by simp, fun b' hpre => ?_⟩
    have hsuf := hlast b'.reverse (by simpa using List.reverse_suffix.mpr hpre)
    simpa using hsuf

theorem rsplitOnce_singleton : rsplitOnce [c] s = some (a, b) ↔ s = a ++ c :: b ∧ c ∉ b := by
  rw [rsplitOnce_eq_reverse]
  simp only [List.reverse_singleton, splitOnce_singleton, List.mem_reverse]
  constructor
  · rintro ⟨heq, hc⟩
    have hs := congrArg List.reverse heq
    simp only [List.reverse_reverse, List.reverse_append, List.reverse_cons] at hs
    exact ⟨by simpa using hs, hc⟩
  · rintro ⟨rfl, hc⟩
    exact ⟨by simp, hc⟩

theorem rsplitOnce_singleton_eq_none : rsplitOnce [c] s = none ↔ c ∉ s := by
  rw [rsplitOnce_eq_none, List.singleton_infix_iff]

end

section
variable {pat s : List α}

theorem stripPrefix_eq_some {rest : List α} : stripPrefix pat s = some rest ↔ s = pat ++ rest := by
  constructor
  · intro h
    by_cases hpre : pat <+: s
    · obtain ⟨rest', rfl⟩ := hpre
      simp [stripPrefix] at h
      rw [h]
    · simp [stripPrefix, hpre] at h
  · rintro rfl
    simp [stripPrefix]

end

end Delimited
