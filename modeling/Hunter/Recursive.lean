import Mathlib.Data.Finset.Card
import Mathlib.Data.List.Dedup
import Mathlib.Logic.Relation
set_option autoImplicit false

/-! Recursive queries: every row is joined once, rows already there being dropped. -/

namespace Recursive
variable {α : Type}

section
variable [DecidableEq α] (next : α → List α)

/-- The rows of `xs` not produced so far. -/
def fresh (seen xs : List α) : List α := (xs.filter (· ∉ seen)).dedup

@[simp] theorem mem_fresh {seen xs : List α} {x : α} : x ∈ fresh seen xs ↔ x ∈ xs ∧ x ∉ seen := by
  simp [fresh]

/-- `queue` holds the rows of `seen` that are still to be joined. -/
def run : Nat → List α → List α → Option (List α)
  | _, [], seen => some seen
  | 0, _ :: _, _ => none
  | fuel + 1, row :: queue, seen =>
    run fuel (queue ++ fresh seen (next row)) (seen ++ fresh seen (next row))

def eval (fuel : Nat) (start : List α) : Option (List α) := run next fuel start.dedup start.dedup

def Derives (start : List α) (x : α) : Prop :=
  ∃ y ∈ start, Relation.ReflTransGen (fun a b => b ∈ next a) y x

structure Progress (start queue seen : List α) : Prop where
  nodup : seen.Nodup
  started : ∀ x ∈ start, x ∈ seen
  derived : ∀ x ∈ seen, Derives next start x
  joined : ∀ x ∈ seen, x ∉ queue → ∀ y ∈ next x, y ∈ seen

variable {next} {start queue seen : List α}

theorem progress_start : Progress next start start.dedup start.dedup where
  nodup := List.nodup_dedup _
  started _ hx := List.mem_dedup.2 hx
  derived x hx := ⟨x, List.mem_dedup.1 hx, .refl⟩
  joined _ hx hnot := absurd hx hnot

theorem Progress.step {row : α} (h : Progress next start (row :: queue) seen)
    (hrow : row ∈ seen) :
    Progress next start (queue ++ fresh seen (next row)) (seen ++ fresh seen (next row)) where
  nodup := by
    refine h.nodup.append (List.nodup_dedup _) fun x hx hfresh => ?_
    exact (mem_fresh.1 hfresh).2 hx
  started x hx := List.mem_append_left _ (h.started x hx)
  derived x hx := by
    rcases List.mem_append.1 hx with hx | hx
    · exact h.derived x hx
    · obtain ⟨y, hy, hpath⟩ := h.derived row hrow
      exact ⟨y, hy, hpath.tail (mem_fresh.1 hx).1⟩
  joined x hx hnot y hy := by
    rw [List.mem_append, not_or] at hnot
    have hseen : x ∈ seen := (List.mem_append.1 hx).resolve_right hnot.2
    by_cases hxrow : x = row
    · subst hxrow
      by_cases hyseen : y ∈ seen
      · exact List.mem_append_left _ hyseen
      · exact List.mem_append_right _ (mem_fresh.2 ⟨hy, hyseen⟩)
    · refine List.mem_append_left _ (h.joined x hseen ?_ y hy)
      simp [hxrow, hnot.1]

omit [DecidableEq α] in
theorem Progress.finished (h : Progress next start [] seen) :
    seen.Nodup ∧ ∀ x, x ∈ seen ↔ Derives next start x := by
  refine ⟨h.nodup, fun x => ⟨h.derived x, ?_⟩⟩
  rintro ⟨y, hy, hpath⟩
  induction hpath with
  | refl => exact h.started y hy
  | tail _ hstep ih => exact h.joined _ ih (by simp) _ hstep

/-- A finished query has produced what joins lead to, and each row once. -/
theorem run_exact {fuel : Nat} {result : List α} (h : Progress next start queue seen)
    (hqueue : ∀ x ∈ queue, x ∈ seen) (hrun : run next fuel queue seen = some result) :
    result.Nodup ∧ ∀ x, x ∈ result ↔ Derives next start x := by
  induction fuel generalizing queue seen with
  | zero =>
    cases queue with
    | cons row queue => cases hrun
    | nil =>
      cases hrun
      exact h.finished
  | succ fuel ih =>
    cases queue with
    | nil =>
      cases hrun
      exact h.finished
    | cons row queue =>
      refine ih (h.step (hqueue row (by simp))) (fun x hx => ?_) hrun
      rcases List.mem_append.1 hx with hx | hx
      · exact List.mem_append_left _ (hqueue x (by simp [hx]))
      · exact List.mem_append_right _ hx

theorem eval_exact {fuel : Nat} {result : List α} (h : eval next fuel start = some result) :
    result.Nodup ∧ ∀ x, x ∈ result ↔ Derives next start x :=
  run_exact progress_start (fun _ hx => hx) h

/-- Rows that joins never leave bound the query's steps. -/
theorem run_ends {domain : Finset α} (hclosed : ∀ x ∈ domain, ∀ y ∈ next x, y ∈ domain)
    {fuel : Nat} (hnodup : seen.Nodup) (hseen : ∀ x ∈ seen, x ∈ domain)
    (hqueue : ∀ x ∈ queue, x ∈ seen)
    (hfuel : domain.card + queue.length ≤ fuel + seen.length) :
    ∃ result, run next fuel queue seen = some result := by
  have hbound : ∀ {xs : List α}, xs.Nodup → (∀ x ∈ xs, x ∈ domain) →
      xs.length ≤ domain.card := by
    intro xs hxs hsub
    rw [← List.toFinset_card_of_nodup hxs]
    exact Finset.card_le_card fun x hx => hsub x (List.mem_toFinset.1 hx)
  induction fuel generalizing queue seen with
  | zero =>
    cases queue with
    | nil => exact ⟨seen, rfl⟩
    | cons row queue =>
      have := hbound hnodup hseen
      simp only [List.length_cons] at hfuel
      omega
  | succ fuel ih =>
    cases queue with
    | nil => exact ⟨seen, rfl⟩
    | cons row queue =>
      have hrow : row ∈ seen := hqueue row (by simp)
      refine ih ?_ (fun x hx => ?_) (fun x hx => ?_) ?_
      · exact hnodup.append (List.nodup_dedup _) fun x hx hfresh => (mem_fresh.1 hfresh).2 hx
      · rcases List.mem_append.1 hx with hx | hx
        · exact hseen x hx
        · exact hclosed row (hseen row hrow) x (mem_fresh.1 hx).1
      · rcases List.mem_append.1 hx with hx | hx
        · exact List.mem_append_left _ (hqueue x (by simp [hx]))
        · exact List.mem_append_right _ hx
      · simp only [List.length_append, List.length_cons] at hfuel ⊢
        omega

theorem eval_ends {domain : Finset α} (hclosed : ∀ x ∈ domain, ∀ y ∈ next x, y ∈ domain)
    (hstart : ∀ x ∈ start, x ∈ domain) :
    ∃ result, eval next domain.card start = some result :=
  run_ends hclosed (List.nodup_dedup _) (fun x hx => hstart x (List.mem_dedup.1 hx))
    (fun _ hx => hx) le_rfl

end

variable (r : α → α → Prop)

inductive Steps (a : α) : Nat → α → Prop
  | refl : Steps a 0 a
  | tail {n : Nat} {b c : α} : Steps a n b → r b c → Steps a (n + 1) c

variable {r} {a b : α}

theorem Steps.reaches {n : Nat} (h : Steps r a n b) : Relation.ReflTransGen r a b := by
  induction h with
  | refl => exact .refl
  | tail _ hstep ih => exact ih.tail hstep

theorem reaches_iff : Relation.ReflTransGen r a b ↔ ∃ n, Steps r a n b := by
  constructor
  · intro h
    induction h with
    | refl => exact ⟨0, .refl⟩
    | tail _ hstep ih =>
      obtain ⟨n, hn⟩ := ih
      exact ⟨n + 1, hn.tail hstep⟩
  · rintro ⟨n, hn⟩
    exact hn.reaches

theorem closed_or_grown (n : Nat) {layer : Nat → Finset α} {reach : Finset α}
    (hreach : ∀ x, x ∈ reach ↔ Relation.ReflTransGen r a x)
    (hlayer : ∀ k x, x ∈ layer k ↔ ∃ m ≤ k, Steps r a m x) :
    layer n = reach ∨ n + 1 ≤ (layer n).card := by
  have hsub : ∀ k, layer k ⊆ reach := by
    intro k x hx
    obtain ⟨m, -, hm⟩ := (hlayer k x).1 hx
    exact (hreach x).2 hm.reaches
  have hmono : ∀ k, layer k ⊆ layer (k + 1) := by
    intro k x hx
    obtain ⟨m, hmk, hm⟩ := (hlayer k x).1 hx
    exact (hlayer _ x).2 ⟨m, by omega, hm⟩
  induction n with
  | zero =>
    refine Or.inr (Finset.card_pos.2 ⟨a, ?_⟩)
    exact (hlayer 0 a).2 ⟨0, le_rfl, .refl⟩
  | succ n ih =>
    rcases ih with hclosed | hgrown
    · left
      exact (hsub _).antisymm (hclosed ▸ hmono n)
    · by_cases hclosed : layer n = layer (n + 1)
      · left
        refine (hsub _).antisymm fun x hx => ?_
        have hpath := (hreach x).1 hx
        induction hpath with
        | refl => exact (hlayer _ a).2 ⟨0, by omega, .refl⟩
        | tail hpath hstep ih =>
          have hmem := ih ((hreach _).2 hpath)
          rw [← hclosed, hlayer] at hmem
          obtain ⟨m, hmn, hm⟩ := hmem
          exact (hlayer _ _).2 ⟨m + 1, by omega, hm.tail hstep⟩
      · right
        have := Finset.card_lt_card ((hmono n).ssubset_of_ne hclosed)
        omega

theorem Steps.short {reach : Finset α} (hreach : ∀ x, x ∈ reach ↔ Relation.ReflTransGen r a x)
    {n : Nat} (hcard : reach.card ≤ n + 1) :
    Relation.ReflTransGen r a b ↔ ∃ m ≤ n, Steps r a m b := by
  classical
  constructor
  · intro h
    let layer := fun k => reach.filter fun x => ∃ m ≤ k, Steps r a m x
    have hlayer : ∀ k x, x ∈ layer k ↔ ∃ m ≤ k, Steps r a m x := by
      intro k x
      rw [Finset.mem_filter]
      constructor
      · exact And.right
      · rintro ⟨m, hmk, hm⟩
        exact ⟨(hreach x).2 hm.reaches, m, hmk, hm⟩
    have hall : layer n = reach := by
      rcases closed_or_grown n hreach hlayer with h | h
      · exact h
      · exact Finset.eq_of_subset_of_card_le (Finset.filter_subset _ _) (hcard.trans h)
    exact (hlayer n b).1 (hall ▸ (hreach b).2 h)
  · rintro ⟨m, -, hm⟩
    exact hm.reaches

end Recursive
