import Mathlib
set_option autoImplicit false

/-! Lists of keys and values in ascending order of the keys, each key once. -/

namespace SortedMap
variable {κ β : Type} [LinearOrder κ]

def Ascending (xs : List (κ × β)) : Prop := xs.Pairwise fun a b => a.1 < b.1

/-- A key's value is replaced, or the key is put where it belongs. -/
def insert (k : κ) (v : β) : List (κ × β) → List (κ × β)
  | [] => [(k, v)]
  | x :: rest =>
    if k < x.1 then (k, v) :: x :: rest
    else if k = x.1 then (k, v) :: rest
    else x :: insert k v rest

def get (k : κ) (xs : List (κ × β)) : Option β := (xs.find? fun x => x.1 = k).map Prod.snd

section
variable {k k' : κ} {v : β} {xs : List (κ × β)} {y : κ × β}

theorem mem_of_mem_insert (h : y ∈ insert k v xs) : y = (k, v) ∨ y ∈ xs := by
  induction xs with
  | nil => exact Or.inl (List.mem_singleton.mp h)
  | cons x rest ih =>
    by_cases hlt : k < x.1
    · rw [insert, if_pos hlt] at h
      exact List.mem_cons.mp h
    · by_cases heq : k = x.1
      · rw [insert, if_neg hlt, if_pos heq] at h
        exact (List.mem_cons.mp h).imp_right (List.mem_cons_of_mem x)
      · rw [insert, if_neg hlt, if_neg heq] at h
        rcases List.mem_cons.mp h with rfl | hmem
        · exact Or.inr (by simp)
        · exact (ih hmem).imp_right (List.mem_cons_of_mem x)

theorem ascending_insert (h : Ascending xs) : Ascending (insert k v xs) := by
  induction xs with
  | nil => exact List.pairwise_singleton _ _
  | cons x rest ih =>
    obtain ⟨hx, hrest⟩ := List.pairwise_cons.mp h
    by_cases hlt : k < x.1
    · rw [insert, if_pos hlt]
      refine List.pairwise_cons.mpr ⟨?_, h⟩
      intro y hy
      rcases List.mem_cons.mp hy with rfl | hy
      · exact hlt
      · exact lt_trans hlt (hx y hy)
    · by_cases heq : k = x.1
      · subst heq
        rw [insert, if_neg hlt, if_pos rfl]
        exact List.pairwise_cons.mpr ⟨hx, hrest⟩
      · rw [insert, if_neg hlt, if_neg heq]
        refine List.pairwise_cons.mpr ⟨?_, ih hrest⟩
        intro y hy
        rcases mem_of_mem_insert hy with rfl | hy
        · exact lt_of_le_of_ne (not_lt.mp hlt) (Ne.symm heq)
        · exact hx y hy

theorem get_insert : get k' (insert k v xs) = if k' = k then some v else get k' xs := by
  induction xs with
  | nil =>
    by_cases hk : k' = k
    · simp [insert, get, hk]
    · simp [insert, get, hk, Ne.symm hk]
  | cons x rest ih =>
    simp only [get] at ih ⊢
    by_cases hlt : k < x.1
    · by_cases hk : k' = k
      · simp [insert, hlt, hk]
      · simp [insert, hlt, hk, Ne.symm hk]
    · by_cases heq : k = x.1
      · subst heq
        by_cases hk : k' = x.1
        · simp [insert, hk]
        · simp [insert, hk, Ne.symm hk]
      · by_cases hx : x.1 = k'
        · subst hx
          simp [insert, hlt, heq, Ne.symm heq]
        · simp [insert, hlt, heq, hx, ih]

end

end SortedMap
