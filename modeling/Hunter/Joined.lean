import Hunter.Delimited
set_option autoImplicit false

/-! Texts joined by one character, and when the join tells them apart. -/

namespace Joined
variable {α : Type} {c d : α}

section
variable {a b r r' : List α} {xs ys : List (List α)}

def join (c : α) (xs : List (List α)) : List α := [c].intercalate xs

theorem join_singleton : join c [a] = a := List.intercalate_singleton

def after (c : α) : List (List α) → List α
  | [] => []
  | x :: xs => c :: join c (x :: xs)

theorem join_cons : join c (a :: xs) = a ++ after c xs := by
  cases xs with
  | nil => rw [join_singleton, after, List.append_nil]
  | cons x xs => rw [join, List.intercalate_cons_cons, List.append_assoc]; rfl

theorem after_of_ne_nil (h : xs ≠ []) : after c xs = c :: join c xs := by
  cases xs with
  | nil => exact absurd rfl h
  | cons x xs => rfl

theorem infix_join (h : a ∈ xs) : a <:+: join c xs := by
  induction xs with
  | nil => cases h
  | cons x xs ih =>
    rw [join_cons]
    obtain rfl | hmem := List.mem_cons.mp h
    · exact (List.prefix_append _ _).isInfix
    · rw [after_of_ne_nil (List.ne_nil_of_mem hmem)]
      exact (ih hmem).trans ((List.suffix_cons _ _).trans (List.suffix_append _ _)).isInfix

theorem flatMap_ended (h : xs ≠ []) : xs.flatMap (fun x => x ++ [c]) = join c xs ++ [c] := by
  induction xs with
  | nil => exact absurd rfl h
  | cons x xs ih =>
    by_cases hnil : xs = []
    · simp [hnil, join]
    · rw [List.flatMap_cons, ih hnil, join_cons, after_of_ne_nil hnil]
      simp

/-- A name and a value with a mark between them: the value holds neither separator nor mark, and
the name not both. -/
structure Marked (c d : α) (n v : List α) : Prop where
  separator : c ∉ v
  mark : d ∉ v
  name : c ∉ n ∨ d ∉ n

variable {n n' v v' : List α}

def entry (d : α) (x : List α × List α) : List α := x.1 ++ d :: x.2

variable [DecidableEq α]

/-- What stands between two separators, each text cut where it holds one itself. -/
def pieces (c : α) (xs : List (List α)) : List (List α) := xs.flatMap (List.splitOn c)

theorem join_splitOn (a : List α) : join c (a.splitOn c) = a := List.intercalate_splitOn c

theorem infix_of_mem_splitOn {s : List α} (h : a ∈ s.splitOn c) : a <:+: s := by
  have hinfix := infix_join (c := c) h
  rwa [join_splitOn] at hinfix

theorem flatMap_splitOn (s : List α) :
    (s.splitOn c).flatMap (fun line => line ++ [c]) = s ++ [c] := by
  rw [flatMap_ended (List.splitOn_ne_nil c s), join_splitOn]

end

end Joined
