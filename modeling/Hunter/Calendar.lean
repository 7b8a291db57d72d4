import Mathlib.Algebra.BigOperators.Group.List.Basic
import Mathlib.Tactic.IntervalCases
set_option autoImplicit false

/-! The proleptic Gregorian calendar: which dates there are, which follows which, and the days
numbered from 1970-01-01. -/

namespace Calendar

def IsLeap (y : Int) : Prop := y % 4 = 0 ∧ (y % 100 ≠ 0 ∨ y % 400 = 0)

instance (y : Int) : Decidable (IsLeap y) := inferInstanceAs (Decidable (_ ∧ _))

def monthDays (y : Int) (m : Nat) : Nat :=
  match m with
  | 2 => if IsLeap y then 29 else 28
  | 4 | 6 | 9 | 11 => 30
  | _ => 31

@[ext] structure Date where
  year : Int
  month : Nat
  day : Nat
  one_le_month : 1 ≤ month
  month_le : month ≤ 12
  one_le_day : 1 ≤ day
  day_le : day ≤ monthDays year month

theorem monthDays_bounds (y : Int) (m : Nat) : 1 ≤ monthDays y m ∧ monthDays y m ≤ 31 := by
  by_cases hleap : IsLeap y
  · simp only [monthDays, hleap, if_true]
    split
    all_goals omega
  · simp only [monthDays, hleap, if_false]
    split
    all_goals omega

def Date.next (d : Date) : Date :=
  if hday : d.day < monthDays d.year d.month then
    { d with day := d.day + 1, one_le_day := by omega, day_le := hday }
  else if hmonth : d.month < 12 then
    { year := d.year, month := d.month + 1, day := 1, one_le_month := by omega, month_le := hmonth,
      one_le_day := le_rfl, day_le := (monthDays_bounds _ _).1 }
  else
    { year := d.year + 1, month := 1, day := 1, one_le_month := le_rfl, month_le := by omega,
      one_le_day := le_rfl, day_le := (monthDays_bounds _ _).1 }

def Date.epoch : Date := ⟨1970, 1, 1, by decide, by decide, by decide, by decide⟩

/-- Days of the years 1 to `y - 1`. -/
def yearsDays (y : Int) : Int := 365 * (y - 1) + (y - 1) / 4 - (y - 1) / 100 + (y - 1) / 400

/-- Days of the year's months before month `m`. -/
def monthsDays (y : Int) (m : Nat) : Nat :=
  ((List.range (m - 1)).map fun i => monthDays y (i + 1)).sum

def yearLength (y : Int) : Nat := if IsLeap y then 366 else 365

theorem yearLength_le (y : Int) : yearLength y ≤ 366 := by
  rw [yearLength]
  split
  all_goals omega

def Date.number (d : Date) : Int :=
  yearsDays d.year + monthsDays d.year d.month + d.day - 719163

theorem yearsDays_succ (y : Int) : yearsDays (y + 1) = yearsDays y + yearLength y := by
  by_cases hleap : IsLeap y
  · rw [yearLength, if_pos hleap]
    simp only [IsLeap] at hleap
    simp only [yearsDays]
    omega
  · rw [yearLength, if_neg hleap]
    simp only [IsLeap] at hleap
    simp only [yearsDays]
    omega

theorem yearsDays_lt {y y' : Int} (h : y < y') : yearsDays y + yearLength y ≤ yearsDays y' := by
  rw [← yearsDays_succ]
  simp only [yearsDays]
  omega

theorem monthsDays_succ {y : Int} {m : Nat} (h : 1 ≤ m) :
    monthsDays y (m + 1) = monthsDays y m + monthDays y m := by
  obtain ⟨k, rfl⟩ : ∃ k, m = k + 1 := ⟨m - 1, by omega⟩
  simp [monthsDays, List.range_succ]

theorem monthsDays_year (y : Int) : monthsDays y 13 = yearLength y := by
  by_cases hleap : IsLeap y
  · simp [monthsDays, monthDays, yearLength, List.range_succ, hleap]
  · simp [monthsDays, monthDays, yearLength, List.range_succ, hleap]

theorem monthsDays_lt {y : Int} {m m' : Nat} (hm : 1 ≤ m) (h : m < m') :
    monthsDays y m + monthDays y m ≤ monthsDays y m' := by
  rw [← monthsDays_succ hm]
  induction m', h using Nat.le_induction with
  | base => exact le_rfl
  | succ m' hle ih =>
    rw [monthsDays_succ (m := m') (by omega)]
    exact Nat.le_add_right_of_le ih

theorem number_epoch : Date.epoch.number = 0 := by decide

theorem number_next (d : Date) : d.next.number = d.number + 1 := by
  have hday := d.day_le
  have hmonth := d.month_le
  by_cases hlast : d.day < monthDays d.year d.month
  · simp only [Date.next, hlast, dif_pos, Date.number]
    omega
  · have hend : d.day = monthDays d.year d.month := by omega
    have hnext := monthsDays_succ (y := d.year) d.one_le_month
    by_cases hdec : d.month < 12
    · simp only [Date.next, hlast, hdec, dif_pos, dif_neg, not_false_eq_true, Date.number]
      omega
    · have hfirst : monthsDays (d.year + 1) 1 = 0 := rfl
      have htwelve : d.month + 1 = 13 := by omega
      rw [htwelve, monthsDays_year] at hnext
      have hyear := yearsDays_succ d.year
      simp only [Date.next, hlast, hdec, dif_neg, not_false_eq_true, Date.number, hfirst]
      omega

def Date.Before (a b : Date) : Prop :=
  a.year < b.year ∨ a.year = b.year ∧ (a.month < b.month ∨ a.month = b.month ∧ a.day < b.day)

theorem number_within (d : Date) : monthsDays d.year d.month + d.day ≤ yearLength d.year := by
  have hday := d.day_le
  have hmonth := d.month_le
  have hrest : monthsDays d.year d.month + monthDays d.year d.month ≤ monthsDays d.year 13 :=
    monthsDays_lt d.one_le_month (by omega)
  rw [monthsDays_year] at hrest
  omega

theorem number_lt_of_before {a b : Date} (h : a.Before b) : a.number < b.number := by
  obtain hyear | ⟨hyear, hmonth | ⟨hmonth, hday⟩⟩ := h
  · have hlt := yearsDays_lt hyear
    have hwithin := number_within a
    have hone := b.one_le_day
    simp only [Date.number]
    omega
  · have hlt := monthsDays_lt (y := a.year) a.one_le_month hmonth
    have hday := a.day_le
    have hone := b.one_le_day
    simp only [Date.number, ← hyear]
    omega
  · simp only [Date.number, ← hyear, ← hmonth]
    omega

theorem before_trichotomy (a b : Date) : a.Before b ∨ a = b ∨ b.Before a := by
  simp only [Date.Before, Date.ext_iff]
  omega

theorem number_injective {a b : Date} (h : a.number = b.number) : a = b := by
  obtain hlt | heq | hgt := before_trichotomy a b
  · have := number_lt_of_before hlt
    omega
  · exact heq
  · have := number_lt_of_before hgt
    omega

/-- Days of the March years before year `y`, counted from year 0. -/
def marchYearsDays (y : Int) : Int := 365 * y + y / 4 - y / 100 + y / 400

def sinceMarch (m : Nat) : Int := if 2 < m then m - 3 else m + 9

def marchYear (y : Int) (m : Nat) : Int := if m ≤ 2 then y - 1 else y

/-- Counted from March, the months before a month are five in 153 days, whatever the year. -/
theorem number_eq_march (d : Date) :
    d.number = marchYearsDays (marchYear d.year d.month) +
      ((153 * sinceMarch d.month + 2) / 5 + d.day - 1) - 719468 := by
  obtain ⟨y, m, day, hm, hm', -, -⟩ := d
  have hleap := yearsDays_succ y
  simp only [yearLength] at hleap
  simp only [Date.number, marchYearsDays, marchYear, sinceMarch]
  simp only [yearsDays] at hleap ⊢
  by_cases hy : IsLeap y
  · simp only [hy, if_true] at hleap
    interval_cases m
    all_goals simp [monthsDays, monthDays, List.range_succ, hy]
    all_goals omega
  · simp only [hy, if_false] at hleap
    interval_cases m
    all_goals simp [monthsDays, monthDays, List.range_succ, hy]
    all_goals omega

theorem marchYearsDays_succ (y : Int) :
    marchYearsDays (y + 1) = marchYearsDays y + yearLength (y + 1) := by
  have hleap := yearsDays_succ (y + 1)
  simp only [yearsDays] at hleap
  simp only [marchYearsDays]
  omega

theorem marchYearsDays_era (y era : Int) :
    marchYearsDays (y + era * 400) = marchYearsDays y + era * 146097 := by
  simp only [marchYearsDays]
  omega

theorem marchYearsDays_split (y : Int) : marchYearsDays y =
    y / 400 * 146097 + (y % 400 * 365 + y % 400 / 4 - y % 400 / 100) := by
  have hfours : y / 4 = 100 * (y / 400) + y % 400 / 4 := by omega
  have hcenturies : y / 100 = 4 * (y / 400) + y % 400 / 100 := by omega
  simp only [marchYearsDays]
  omega

/-- The March year, within an era of 400, of a day of that era. -/
def yearOfEra (doe : Int) : Int := (doe - doe / 1460 + doe / 36524 - doe / 146096) / 365

/-- The leap days of an era are taken off before its days are divided into years. -/
theorem yearOfEra_spec {doe : Int} (hlow : 0 ≤ doe) (hhigh : doe ≤ 146096) :
    (0 ≤ yearOfEra doe ∧ yearOfEra doe ≤ 399) ∧ marchYearsDays (yearOfEra doe) ≤ doe ∧
      doe < marchYearsDays (yearOfEra doe + 1) := by
  obtain ⟨yoe, hyoe⟩ : ∃ yoe, yoe = yearOfEra doe := ⟨_, rfl⟩
  rw [← hyoe]
  simp only [yearOfEra] at hyoe
  have hbound : 0 ≤ yoe ∧ yoe ≤ 399 := by omega
  refine ⟨hbound, ?_⟩
  simp only [marchYearsDays]
  obtain ⟨century, hcentury⟩ : ∃ century, century = doe / 36524 := ⟨_, rfl⟩
  by_cases hend : century = 4
  · -- The last day of the era.
    obtain rfl : doe = 146096 := by omega
    omega
  · have hera : doe / 146096 = 0 := by omega
    have hyear : yoe / 100 = century := by omega
    have hfour : yoe / 400 = 0 := by omega
    constructor
    · omega
    · by_cases hlast : yoe = 100 * century + 99
      · have hnext : (yoe + 1) / 100 = century + 1 := by omega
        omega
      · have hnext : (yoe + 1) / 100 = century := by omega
        have hfour' : (yoe + 1) / 400 = 0 := by omega
        omega

def monthOfYear (doy : Int) : Int := (5 * doy + 2) / 153

def monthFrom (mp : Int) : Nat := (if mp < 10 then mp + 3 else mp - 9).toNat

def dayOfMonth (doy : Int) : Nat := (doy - (153 * monthOfYear doy + 2) / 5 + 1).toNat

def yearFrom (y mp : Int) : Int := if mp < 10 then y else y + 1

theorem monthOfYear_spec {y doy : Int} (hlow : 0 ≤ doy) (hhigh : doy < yearLength (y + 1)) :
    (0 ≤ monthOfYear doy ∧ monthOfYear doy ≤ 11) ∧
      (dayOfMonth doy : Int) = doy - (153 * monthOfYear doy + 2) / 5 + 1 ∧ 1 ≤ dayOfMonth doy ∧
      dayOfMonth doy ≤
        monthDays (yearFrom y (monthOfYear doy)) (monthFrom (monthOfYear doy)) := by
  have hyear := yearLength_le (y + 1)
  simp only [dayOfMonth]
  obtain ⟨mp, hmp⟩ : ∃ mp, mp = monthOfYear doy := ⟨_, rfl⟩
  rw [← hmp]
  simp only [monthOfYear] at hmp
  have hbound : 0 ≤ mp ∧ mp ≤ 11 := by omega
  refine ⟨hbound, by omega, by omega, ?_⟩
  obtain ⟨hmp0, hmp11⟩ := hbound
  -- Only February, the last month, has to know the length of its year.
  by_cases hleap : IsLeap (y + 1)
  · rw [yearLength, if_pos hleap] at hhigh
    interval_cases mp
    all_goals simp [monthFrom, yearFrom, monthDays, hleap]
    all_goals omega
  · rw [yearLength, if_neg hleap] at hhigh
    interval_cases mp
    all_goals simp [monthFrom, yearFrom, monthDays, hleap]
    all_goals omega

def dayOfEra (n : Int) : Int := (n + 719468) % 146097

def dayOfYear (doe : Int) : Int :=
  doe - (365 * yearOfEra doe + yearOfEra doe / 4 - yearOfEra doe / 100)

def yearOf (n : Int) : Int := yearOfEra (dayOfEra n) + (n + 719468) / 146097 * 400

theorem dayOfYear_spec (n : Int) :
    n = marchYearsDays (yearOf n) + dayOfYear (dayOfEra n) - 719468 ∧
      0 ≤ dayOfYear (dayOfEra n) ∧ dayOfYear (dayOfEra n) < yearLength (yearOf n + 1) := by
  have hdoe : 0 ≤ dayOfEra n ∧ dayOfEra n ≤ 146096 := by
    simp only [dayOfEra]
    omega
  obtain ⟨hbound, hlow, hhigh⟩ := yearOfEra_spec hdoe.1 hdoe.2
  have hnext := marchYearsDays_succ (yearOf n)
  have hera : marchYearsDays (yearOf n) =
      marchYearsDays (yearOfEra (dayOfEra n)) + (n + 719468) / 146097 * 146097 :=
    marchYearsDays_era _ _
  have hera' : marchYearsDays (yearOf n + 1) =
      marchYearsDays (yearOfEra (dayOfEra n) + 1) + (n + 719468) / 146097 * 146097 := by
    rw [← marchYearsDays_era]
    congr 1
    simp only [yearOf]
    omega
  have hdays : dayOfYear (dayOfEra n) =
      dayOfEra n - marchYearsDays (yearOfEra (dayOfEra n)) := by
    simp only [dayOfYear, marchYearsDays]
    omega
  have hn : n + 719468 = (n + 719468) / 146097 * 146097 + dayOfEra n := by
    simp only [dayOfEra]
    omega
  omega

def Date.ofNumber (n : Int) : Date where
  year := yearFrom (yearOf n) (monthOfYear (dayOfYear (dayOfEra n)))
  month := monthFrom (monthOfYear (dayOfYear (dayOfEra n)))
  day := dayOfMonth (dayOfYear (dayOfEra n))
  one_le_month := by
    obtain ⟨-, hlow, hhigh⟩ := dayOfYear_spec n
    obtain ⟨hmp, -⟩ := monthOfYear_spec hlow hhigh
    simp only [monthFrom]
    split
    all_goals omega
  month_le := by
    obtain ⟨-, hlow, hhigh⟩ := dayOfYear_spec n
    obtain ⟨hmp, -⟩ := monthOfYear_spec hlow hhigh
    simp only [monthFrom]
    split
    all_goals omega
  one_le_day := by
    obtain ⟨-, hlow, hhigh⟩ := dayOfYear_spec n
    exact (monthOfYear_spec hlow hhigh).2.2.1
  day_le := by
    obtain ⟨-, hlow, hhigh⟩ := dayOfYear_spec n
    exact (monthOfYear_spec hlow hhigh).2.2.2

theorem number_ofNumber (n : Int) : (Date.ofNumber n).number = n := by
  obtain ⟨hn, hlow, hhigh⟩ := dayOfYear_spec n
  obtain ⟨hmp, hday, -, -⟩ := monthOfYear_spec hlow hhigh
  rw [number_eq_march]
  have hyear : marchYear (Date.ofNumber n).year (Date.ofNumber n).month = yearOf n := by
    simp only [Date.ofNumber, marchYear, yearFrom, monthFrom]
    split
    all_goals split
    all_goals omega
  have hmonth : sinceMarch (Date.ofNumber n).month = monthOfYear (dayOfYear (dayOfEra n)) := by
    simp only [Date.ofNumber, sinceMarch, monthFrom]
    split
    all_goals split
    all_goals omega
  rw [hyear, hmonth]
  simp only [Date.ofNumber]
  omega

theorem ofNumber_number (d : Date) : Date.ofNumber d.number = d :=
  number_injective (number_ofNumber d.number)

/-- There is one way to number the days one by one from the epoch. -/
theorem eq_number {f : Date → Int} (hepoch : f Date.epoch = 0)
    (hnext : ∀ d : Date, f d.next = f d + 1) (d : Date) : f d = d.number := by
  have hstep (n : Int) : (Date.ofNumber n).next = Date.ofNumber (n + 1) := by
    refine number_injective ?_
    rw [number_next, number_ofNumber, number_ofNumber]
  have hall (n : Int) : f (Date.ofNumber n) = n := by
    induction n using Int.induction_on with
    | zero => rwa [← number_epoch, ofNumber_number]
    | succ n ih => rw [← hstep, hnext, ih]
    | pred n ih =>
      have hprev := hnext (Date.ofNumber (-n - 1))
      rw [hstep, Int.sub_add_cancel, ih] at hprev
      omega
  have hd := hall d.number
  rwa [ofNumber_number] at hd

end Calendar
