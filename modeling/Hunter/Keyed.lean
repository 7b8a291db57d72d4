import Mathlib.Data.List.Nodup
set_option autoImplicit false

/-! Lists kept with at most one element for each key, in the order keys first came up. -/

namespace Keyed
variable {α κ : Type} [DecidableEq κ]

/-- The first element of this key is updated; without one, a new element is appended. -/
def upsert (key : α → κ) (k : κ) (update : α → α) (new : α) : List α → List α
  | [] => [new]
  | x :: rest => if key x = k then update x :: rest else x :: upsert key k update new rest

def lookup (key : α → κ) (k : κ) (xs : List α) : Option α := xs.find? fun x => key x = k

section
variable {key : α → κ} {k k' : κ} {update : α → α} {new x : α} {xs : List α}

theorem lookup_eq_some_iff (h : (xs.map key).Nodup) :
    lookup key k xs = some x ↔ x ∈ xs ∧ key x = k := by
  unfold lookup
  constructor
  · intro hx
    exact ⟨List.mem_of_find?_eq_some hx, by simpa using List.find?_some hx⟩
  · rintro ⟨hx, rfl⟩
    induction xs with
    | nil => cases hx
    | cons y rest ih =>
      rw [List.map_cons, List.nodup_cons] at h
      rcases List.mem_cons.1 hx with rfl | hx
      · simp
      · have hne : key y ≠ key x := fun heq => h.1 (heq ▸ List.mem_map_of_mem hx)
        simp only [List.find?_cons, hne, decide_false]
        exact ih h.2 hx

end

end Keyed
