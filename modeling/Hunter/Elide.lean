import Mathlib
set_option autoImplicit false

/-! A list cut from the front until the rest fits a budget, the last item never being cut. -/

namespace Elide
variable {α : Type} (size : α → Nat) (cap : Nat)

def total (xs : List α) : Nat := (xs.map size).sum

/-- What is dropped, and what is kept. -/
def cut : List α → List α × List α
  | [] => ([], [])
  | a :: rest =>
    if rest ≠ [] ∧ cap < total size (a :: rest) then (a :: (cut rest).1, (cut rest).2)
    else ([], a :: rest)

variable {size cap} {xs r : List α} {a b : α}

theorem cut_append : (cut size cap xs).1 ++ (cut size cap xs).2 = xs := by
  induction xs with
  | nil => rfl
  | cons a xs ih =>
    by_cases hcut : xs ≠ [] ∧ cap < total size (a :: xs)
    · simp [cut, hcut, ih]
    · simp [cut, hcut]

theorem nil_of_kept_nil (h : (cut size cap xs).2 = []) : (cut size cap xs).1 = [] := by
  induction xs with
  | nil => rfl
  | cons a xs ih =>
    by_cases hcut : xs ≠ [] ∧ cap < total size (a :: xs)
    · simp only [cut, hcut, ne_eq, not_false_eq_true, and_self, if_true] at h
      have hnil := @cut_append α size cap xs
      rw [ih h, h] at hnil
      exact absurd hnil.symm hcut.1
    · simp [cut, hcut] at h

theorem total_le_of_suffix {ys : List α} (h : ys <:+ xs) : total size ys ≤ total size xs := by
  obtain ⟨front, rfl⟩ := h
  simp [total]

theorem pairwise_of_splits {R : α → α → Prop} (h : ∀ m b r, xs = m ++ b :: r → ∀ a ∈ m, R a b) :
    xs.Pairwise R := by
  induction xs using List.reverseRecOn with
  | nil => exact List.Pairwise.nil
  | append_singleton xs c ih =>
    refine List.pairwise_append.mpr ⟨ih fun m b r hxs => ?_, List.pairwise_singleton R c, ?_⟩
    · exact h m b (r ++ [c]) (by simp [hxs])
    · intro a ha b hb
      obtain rfl := List.mem_singleton.mp hb
      exact h xs b [] rfl a ha

theorem cut_fits : (cut size cap xs).2.length ≤ 1 ∨ total size (cut size cap xs).2 ≤ cap := by
  induction xs with
  | nil => simp [cut]
  | cons a xs ih =>
    by_cases hcut : xs ≠ [] ∧ cap < total size (a :: xs)
    · simpa [cut, hcut] using ih
    · rw [cut, if_neg hcut]
      by_cases hnil : xs = []
      · left
        simp [hnil]
      · right
        exact Nat.le_of_not_lt fun hlt => hcut ⟨hnil, hlt⟩

theorem suffix_cut (h : b :: r <:+ xs) (hfits : r = [] ∨ total size (b :: r) ≤ cap) :
    b :: r <:+ (cut size cap xs).2 := by
  induction xs with
  | nil => simp at h
  | cons a xs ih =>
    by_cases hcut : xs ≠ [] ∧ cap < total size (a :: xs)
    · simp only [cut, hcut, ne_eq, not_false_eq_true, and_self, if_true]
      refine ih ?_
      rcases List.suffix_cons_iff.mp h with heq | hsuffix
      · obtain ⟨rfl, rfl⟩ := List.cons_eq_cons.mp heq
        obtain hnil | hle := hfits
        · exact absurd hnil hcut.1
        · have hlt := hcut.2
          omega
      · exact hsuffix
    · rw [cut, if_neg hcut]
      exact h

theorem fits_of_suffix_cut (h : b :: r <:+ (cut size cap xs).2) :
    r = [] ∨ total size (b :: r) ≤ cap := by
  obtain hone | hfits := @cut_fits α size cap xs
  · left
    have hlen := h.length_le
    simp only [List.length_cons] at hlen
    exact List.length_eq_zero_iff.mp (by omega)
  · right
    have hle : total size (b :: r) ≤ total size (cut size cap xs).2 := total_le_of_suffix h
    omega

theorem cut_pairs_iff {R : α → α → Prop} :
    ((cut size cap xs).2.Pairwise R ∧
        ∀ e ∈ (cut size cap xs).1, ∀ k ∈ (cut size cap xs).2, R e k) ↔
      ∀ l b r, xs = l ++ b :: r → b :: r <:+ (cut size cap xs).2 → ∀ a ∈ l, R a b := by
  have happend := @cut_append α size cap xs
  generalize (cut size cap xs).1 = elided at *
  generalize (cut size cap xs).2 = kept at *
  subst happend
  constructor
  · rintro ⟨hkept, hcross⟩ l b r hxs ⟨m, rfl⟩ a ha
    rw [← List.append_assoc] at hxs
    obtain rfl := List.append_cancel_right hxs
    rcases List.mem_append.mp ha with he | hm
    · exact hcross a he b (by simp)
    · exact (List.pairwise_append.mp hkept).2.2 a hm b (by simp)
  · intro h
    constructor
    · refine pairwise_of_splits fun m b r hkept a ha => ?_
      subst hkept
      exact h (elided ++ m) b r (by simp) ⟨m, rfl⟩ a (by simp [ha])
    · intro e he k hk
      obtain ⟨m, r, rfl⟩ := List.append_of_mem hk
      exact h (elided ++ m) k r (by simp) ⟨m, rfl⟩ e (by simp [he])

theorem exists_last (h : b ∈ xs) : ∃ l r, xs = l ++ b :: r ∧ b ∉ r := by
  obtain ⟨r, l, hxs, hr⟩ := List.eq_append_cons_of_mem (List.mem_reverse.mpr h)
  refine ⟨l.reverse, r.reverse, ?_, by simpa using hr⟩
  rw [← List.reverse_reverse xs, hxs]
  simp

section
variable [LinearOrder α] {R : α → α → Prop}

variable (size cap xs) in
/-- The greatest of the items, or one that fits together with all that are greater. -/
def Within (b : α) : Prop :=
  (∀ c ∈ xs, c ≤ b) ∨ size b + total size (xs.filter (b < ·)) ≤ cap

theorem Within.perm {ys : List α} (h : xs.Perm ys) :
    Within size cap xs b ↔ Within size cap ys b := by
  have hsum : total size (xs.filter (b < ·)) = total size (ys.filter (b < ·)) :=
    ((h.filter _).map size).sum_eq
  simp only [Within, hsum, h.mem_iff]

/-- The greater items of a sorted list stand behind the last copy of an item. -/
theorem filter_of_last {l : List α} (hs : (l ++ b :: r).Pairwise (· ≤ ·)) (hlast : b ∉ r) :
    (l ++ b :: r).filter (b < ·) = r := by
  obtain ⟨-, hr, hl⟩ := List.pairwise_append.mp hs
  have hbefore : l.filter (b < ·) = [] := by
    refine List.filter_eq_nil_iff.mpr fun c hc => ?_
    simpa using hl c hc b (by simp)
  have hafter : r.filter (b < ·) = r := by
    refine List.filter_eq_self.mpr fun c hc => ?_
    have hle := (List.pairwise_cons.mp hr).1 c hc
    have hne : b ≠ c := fun h => hlast (h ▸ hc)
    simpa using lt_of_le_of_ne hle hne
  simp [hbefore, hafter]

theorem cut_ordered_iff (hrefl : ∀ a, R a a) (hs : xs.Pairwise (· ≤ ·)) :
    ((cut size cap xs).2.Pairwise R ∧
        ∀ e ∈ (cut size cap xs).1, ∀ k ∈ (cut size cap xs).2, R e k) ↔
      ∀ a ∈ xs, ∀ b ∈ xs, a < b → Within size cap xs b → R a b := by
  rw [cut_pairs_iff]
  constructor
  · intro h a ha b hb hlt hwithin
    obtain ⟨l, r, rfl, hlast⟩ := exists_last hb
    have hfilter := filter_of_last hs hlast
    obtain ⟨-, hr, -⟩ := List.pairwise_append.mp hs
    have hal : a ∈ l := by
      simp only [List.mem_append, List.mem_cons] at ha
      obtain hl | rfl | hmem := ha
      · exact hl
      · exact absurd hlt (lt_irrefl a)
      · exact absurd hlt (not_lt_of_ge ((List.pairwise_cons.mp hr).1 a hmem))
    refine h l b r rfl (suffix_cut ⟨l, rfl⟩ ?_) a hal
    obtain hmax | hfits := hwithin
    · left
      refine List.eq_nil_iff_forall_not_mem.mpr fun c hc => ?_
      have hle := (List.pairwise_cons.mp hr).1 c hc
      have hge := hmax c (by simp [hc])
      exact hlast (le_antisymm hle hge ▸ hc)
    · right
      rw [hfilter] at hfits
      simpa [total] using hfits
  · rintro h l b r rfl hsuffix a ha
    obtain ⟨-, hr, hl⟩ := List.pairwise_append.mp hs
    have hle : a ≤ b := hl a ha b (by simp)
    obtain rfl | hlt := hle.eq_or_lt
    · exact hrefl a
    · refine h a (by simp [ha]) b (by simp) hlt ?_
      obtain rfl | hfits := fits_of_suffix_cut hsuffix
      · left
        intro c hc
        simp only [List.mem_append, List.mem_singleton] at hc
        obtain hc | rfl := hc
        · exact hl c hc b (by simp)
        · exact le_rfl
      · right
        have hbefore : l.filter (b < ·) = [] := by
          refine List.filter_eq_nil_iff.mpr fun c hc => ?_
          simpa using hl c hc b (by simp)
        have hsub : total size (r.filter (b < ·)) ≤ total size r :=
          List.Sublist.sum_le_sum (List.filter_sublist.map size) fun _ _ => Nat.zero_le _
        simp only [total, List.map_cons, List.sum_cons] at hfits
        simp only [List.filter_append, List.filter_cons, lt_irrefl, decide_false,
          Bool.false_eq_true, if_false, hbefore, List.nil_append]
        simp only [total] at hsub ⊢
        omega

end

end Elide
