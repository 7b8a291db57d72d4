import Hunter.Scheduler.DepScan
set_option autoImplicit false

namespace Hunter

/-! What becomes of a report's updates. -/

/-- An update found in one manifest, and the branch it is assigned to. -/
structure Occurrence where
  branch : Text
  member : Member
  file : Text

def Occurrence.move (o : Occurrence) : Text × Text × Text × Text := o.member.move

theorem foldl_flatMap_of_step {σ τ α β : Type} {part : σ → τ} {f : σ → α → σ} {g : α → List β}
    {h : τ → β → τ} (hstep : ∀ acc x, part (f acc x) = (g x).foldl h (part acc)) (xs : List α)
    (acc : σ) : part (xs.foldl f acc) = (xs.flatMap g).foldl h (part acc) := by
  induction xs generalizing acc with
  | nil => rfl
  | cons x rest ih => rw [List.foldl_cons, ih, hstep, List.flatMap_cons, List.foldl_append]

/-- A branch's members hold this occurrence. -/
def Holds (b : Branch) (o : Occurrence) : Prop := ∃ m ∈ b.2, m.move = o.move ∧ o.file ∈ m.files

end Hunter
