import Mathlib.Algebra.Order.Field.Basic
import Mathlib.Tactic.Ring
set_option autoImplicit false

/-! A level that rises in a straight line, and the moment it reaches a mark. -/

structure Ramp (K : Type) [LT K] where
  start : K
  finish : K
  rises : start < finish

namespace Ramp
variable {K : Type} [Field K] [LinearOrder K] (r : Ramp K) {t u mark : K}

def level (t : K) : K := (t - r.start) / (r.finish - r.start)

def reaches (mark : K) : K := r.start + mark * (r.finish - r.start)

@[simp] theorem reaches_one : r.reaches 1 = r.finish := by
  rw [reaches]
  ring

variable [IsStrictOrderedRing K]

theorem length_pos : 0 < r.finish - r.start := sub_pos.mpr r.rises

theorem level_le_iff : r.level t ≤ mark ↔ t ≤ r.reaches mark := by
  rw [level, div_le_iff₀ r.length_pos, sub_le_iff_le_add, reaches, add_comm]

theorem level_mono (h : t ≤ u) : r.level t ≤ r.level u :=
  div_le_div_of_nonneg_right (sub_le_sub_right h _) (le_of_lt r.length_pos)

theorem level_le_one_iff : r.level t ≤ 1 ↔ t ≤ r.finish := by
  rw [level_le_iff, reaches_one]

@[simp] theorem level_finish : r.level r.finish = 1 := div_self (ne_of_gt r.length_pos)

theorem one_le_level (h : r.finish ≤ t) : 1 ≤ r.level t :=
  r.level_finish.symm.trans_le (r.level_mono h)

theorem finish_le_reaches_iff : r.finish ≤ r.reaches mark ↔ 1 ≤ mark := by
  rw [← level_le_iff, level_finish]

theorem level_le_iff_of_lt (h : t < r.finish) :
    r.level t ≤ mark ↔ t ≤ min (r.reaches mark) r.finish := by
  rw [level_le_iff, le_min_iff, and_iff_left (le_of_lt h)]

end Ramp
