import Hunter.Text
set_option autoImplicit false

namespace Hunter.Scavenge

def headroomMs : Int := 30 * 60 * 1000
def weekMs : Int := 604800000
def fiveHMs : Int := 18000000

/-- One provider window as read from the usage mirror. -/
structure WindowState where
  limitId : Text
  usedFraction : Option ℚ
  status : Option Text
  resetsAt : Option Int
  recordedAt : Int
  ageS : ℚ

/-- The usage snapshot: rows by `limit_id`, in ascending key order as a `BTreeMap` holds them. -/
structure Windows where
  rows : List (Text × WindowState)
  ascending : rows.Pairwise (fun a b => a.1 < b.1)

def Windows.get (windows : Windows) (limitId : Text) : Option WindowState :=
  (windows.rows.find? (fun row => row.1 = limitId)).map Prod.snd

def rampLinear (resetsAt : Option Int) (periodMs nowMs : Int) : ℚ :=
  match resetsAt with
  | none => 1
  | some r =>
    if r = 0 then 1
    else min (((nowMs - (r - periodMs) : Int) : ℚ) / periodMs) 1

def rampAfterHeadroom (resetsAt : Option Int) (periodMs nowMs : Int) : Option ℚ :=
  match resetsAt with
  | none => none
  | some r =>
    if r = 0 then none
    else if r ≤ nowMs then none
    else
      let elapsed := periodMs - (r - nowMs)
      some (max (((elapsed - headroomMs : Int) : ℚ) / ((periodMs - headroomMs : Int) : ℚ)) 0)

def retryAtLinear (resetsAt : Option Int) (periodMs : Int) (effectiveUsed : ℚ) : Option ℚ :=
  match resetsAt with
  | none => none
  | some r =>
    if r = 0 then none
    else some (min (((r - periodMs : Int) : ℚ) + effectiveUsed * periodMs) r)

def retryAtAfterHeadroom (resetsAt : Option Int) (periodMs : Int) (effectiveUsed : ℚ) :
    Option ℚ :=
  match resetsAt with
  | none => none
  | some r =>
    if r = 0 then none
    else some (min (((r - periodMs : Int) : ℚ) + headroomMs
      + effectiveUsed * ((periodMs - headroomMs : Int) : ℚ)) r)

theorem rampLinear_le_one (resetsAt : Option Int) (periodMs nowMs : Int) :
    rampLinear resetsAt periodMs nowMs ≤ 1 := by
  cases resetsAt with
  | none => exact le_refl 1
  | some r =>
    simp only [rampLinear]
    split
    · exact le_refl 1
    · exact min_le_right _ _

theorem rampAfterHeadroom_le_one {resetsAt : Option Int} {periodMs nowMs : Int} {allowed : ℚ}
    (hp : headroomMs < periodMs) (h : rampAfterHeadroom resetsAt periodMs nowMs = some allowed) :
    allowed ≤ 1 := by
  cases resetsAt with
  | none => simp [rampAfterHeadroom] at h
  | some r =>
    simp only [rampAfterHeadroom] at h
    split at h
    · cases h
    split at h
    · cases h
    · rename_i hnow
      cases h
      have hpos : (0 : ℚ) < ((periodMs - headroomMs : Int) : ℚ) := by
        exact_mod_cast sub_pos.mpr hp
      refine max_le ?_ zero_le_one
      rw [div_le_one hpos]
      exact_mod_cast (by omega :
        periodMs - (r - nowMs) - headroomMs ≤ periodMs - headroomMs)

end Hunter.Scavenge
