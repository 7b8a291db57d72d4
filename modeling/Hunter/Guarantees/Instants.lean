import Hunter.Calendar
import Hunter.Store.Dates
import Hunter.Guarantees.Timestamps
set_option autoImplicit false
namespace Hunter
open Checked Delimited Calendar

/-- The day numbers that both directions can hold with every intermediate. -/
def DayInRange (n : Int) : Prop := i64.Holds n ∧ i64.Holds (n + 719468)

instance (n : Int) : Decidable (DayInRange n) := inferInstanceAs (Decidable (_ ∧ _))

theorem tdiv_era {z : Int} : (if 0 ≤ z then z else z - 146096).tdiv 146097 = z / 146097 := by
  by_cases hz : 0 ≤ z
  · rw [if_pos hz, Int.tdiv_eq_ediv_of_nonneg hz]
  · have hsign : Int.sign 146097 = 1 := rfl
    rw [if_neg hz, Int.tdiv_eq_ediv, hsign]
    split
    all_goals omega

theorem asU32_eq {x : Int} (h : u32.Holds x) : asU32 x = x := by
  simp only [holds_u32] at h
  simp only [asU32]
  omega

theorem tdiv_yearOfEra {doe : Int} (h : 0 ≤ doe ∧ doe ≤ 146096) :
    (doe - doe.tdiv 1460 + doe.tdiv 36524 - doe.tdiv 146096).tdiv 365 = yearOfEra doe := by
  simp only [Int.tdiv_eq_ediv_of_nonneg h.1]
  exact Int.tdiv_eq_ediv_of_nonneg (by omega)

theorem tdiv_dayOfYear {doe : Int} (h : 0 ≤ yearOfEra doe) :
    doe - (365 * yearOfEra doe + (yearOfEra doe).tdiv 4 - (yearOfEra doe).tdiv 100) =
      dayOfYear doe := by
  simp only [Int.tdiv_eq_ediv_of_nonneg h]
  rfl

theorem tdiv_monthOfYear {doy : Int} (h : 0 ≤ doy) :
    (5 * doy + 2).tdiv 153 = monthOfYear doy :=
  Int.tdiv_eq_ediv_of_nonneg (by omega)

theorem tdiv_monthStart {mp : Int} (h : 0 ≤ mp) : (153 * mp + 2).tdiv 5 = (153 * mp + 2) / 5 :=
  Int.tdiv_eq_ediv_of_nonneg (by omega)

theorem civilFromDays_eq_ok {n : Int} (hn : DayInRange n) :
    civilFromDays n =
      .ok ((Date.ofNumber n).year, (Date.ofNumber n).month, (Date.ofNumber n).day) := by
  obtain ⟨hn, hz⟩ := hn
  obtain ⟨-, hlow, hhigh⟩ := dayOfYear_spec n
  obtain ⟨hmp, hday, hone, hle⟩ := monthOfYear_spec hlow hhigh
  have hdoe : 0 ≤ dayOfEra n ∧ dayOfEra n ≤ 146096 := by
    simp only [dayOfEra]
    omega
  obtain ⟨hyoe, -, -⟩ := yearOfEra_spec hdoe.1 hdoe.2
  have hfloor : (if 0 ≤ n + 719468 then pure (n + 719468) else i64.fit (n + 719468 - 146096)) =
      .ok (if 0 ≤ n + 719468 then n + 719468 else n + 719468 - 146096) := by
    simp only [holds_i64] at hn hz
    by_cases hpos : 0 ≤ n + 719468
    · simp only [if_pos hpos]
      rfl
    · simp only [if_neg hpos, Width.fit_eq_ok, and_true, holds_i64]
      omega
  have hera : n + 719468 - (n + 719468) / 146097 * 146097 = dayOfEra n := by
    simp only [dayOfEra]
    omega
  have hmonth : (if monthOfYear (dayOfYear (dayOfEra n)) < 10
      then i64.fit (monthOfYear (dayOfYear (dayOfEra n)) + 3)
      else i64.fit (monthOfYear (dayOfYear (dayOfEra n)) - 9)) =
        .ok (Date.ofNumber n).month := by
    simp only [Date.ofNumber, monthFrom]
    split
    all_goals simp only [Width.fit_eq_ok, holds_i64]
    all_goals omega
  rw [civilFromDays, Width.fit_bind_eq_ok]
  refine ⟨hz, ?_⟩
  rw [hfloor, bind_eq_ok]
  refine ⟨_, rfl, ?_⟩
  simp only [tdiv_era, Width.fit_bind_eq_ok, hera, tdiv_yearOfEra hdoe, tdiv_dayOfYear hyoe.1,
    tdiv_monthOfYear hlow, tdiv_monthStart hmp.1, hmonth]
  simp only [Int.tdiv_eq_ediv_of_nonneg hdoe.1, Int.tdiv_eq_ediv_of_nonneg hyoe.1,
    bind_eq_ok (r := Except.ok _), Except.ok.injEq, exists_eq_left', Width.fit_bind_eq_ok, ← hday,
    pure_eq_ok, holds_i64]
  have hm : asU32 ((Date.ofNumber n).month : Int) = (Date.ofNumber n).month := by
    have hle := (Date.ofNumber n).month_le
    refine asU32_eq ?_
    simp only [holds_u32]
    omega
  have hlen := yearLength_le (yearOf n + 1)
  have hd : asU32 (dayOfMonth (dayOfYear (dayOfEra n)) : Int) =
      dayOfMonth (dayOfYear (dayOfEra n)) := by
    refine asU32_eq ?_
    simp only [holds_u32]
    omega
  have hyear : yearOfEra (dayOfEra n) + (n + 719468) / 146097 * 400 +
      (if ((Date.ofNumber n).month : Int) ≤ 2 then 1 else 0) = (Date.ofNumber n).year := by
    simp only [Date.ofNumber, monthFrom, yearFrom, yearOf]
    split
    all_goals split
    all_goals omega
  simp only [holds_i64] at hn hz
  rw [hm, hd, hyear]
  simp only [Date.ofNumber, and_true] at hyear ⊢
  omega

theorem civilFromDays_returns_iff {n : Int} (hn : i64.Holds n) :
    Returns (civilFromDays n) ↔ DayInRange n := by
  constructor
  · rintro ⟨date, hdate⟩
    rw [civilFromDays, Width.fit_bind_eq_ok] at hdate
    exact ⟨hn, hdate.1⟩
  · intro hrange
    exact ⟨_, civilFromDays_eq_ok hrange⟩

theorem civilToDays_number {d : Date} (hn : DayInRange d.number) :
    civilToDays d.year d.month d.day = .ok d.number := by
  obtain ⟨hn, hz⟩ := hn
  have hmarch := number_eq_march d
  rw [marchYearsDays_split] at hmarch
  have hmonth := d.month_le
  have hmonth' := d.one_le_month
  have hday := d.one_le_day
  have hwithin : d.day ≤ 31 := d.day_le.trans (monthDays_bounds _ _).2
  simp only [holds_i64] at hn hz
  rw [civilToDays]
  by_cases hwinter : (d.month : Int) ≤ 2
  · have hgt : ¬ (d.month : Int) > 2 := by omega
    have hnat : d.month ≤ 2 := by omega
    have hnat' : ¬ 2 < d.month := by omega
    simp only [marchYear, sinceMarch, hnat, hnat', if_true, if_false] at hmarch
    simp only [hwinter, hgt, if_true, if_false, Width.fit_bind_eq_ok, Width.fit_eq_ok, holds_i64,
      holds_u32]
    omega
  · have hgt : (d.month : Int) > 2 := by omega
    have hnat : ¬ d.month ≤ 2 := by omega
    have hnat' : 2 < d.month := by omega
    simp only [marchYear, sinceMarch, hnat, hnat', if_true, if_false] at hmarch
    simp only [hwinter, hgt, if_true, if_false, pure_bind, Width.fit_bind_eq_ok, Width.fit_eq_ok,
      holds_i64, holds_u32]
    omega

/-- `Z`, or an offset of two digits each with its sign (`true` for `-`). -/
inductive ZoneSuffix where
  | utc
  | offset (negative : Bool) (hours minutes : Fin 100)

def ZoneSuffix.spell : ZoneSuffix → Text
  | .utc => ['Z']
  | .offset negative hours minutes =>
    (if negative then '-' else '+') :: (padded 2 hours ++ ':' :: padded 2 minutes)

def ZoneSuffix.ahead : ZoneSuffix → Int
  | .utc => 0
  | .offset negative hours minutes =>
    if negative then -(hours * 3600 + minutes * 60) else hours * 3600 + minutes * 60

/-- A date with a four-digit year, a time of its day, a fraction of any length. -/
structure Moment where
  date : Date
  hour : Nat
  minute : Nat
  second : Nat
  frac : Option Text
  zone : ZoneSuffix
  year_nonneg : 0 ≤ date.year
  year_le : date.year ≤ 9999
  hour_lt : hour < 24
  minute_lt : minute < 60
  second_lt : second < 60
  frac_digits : ∀ ds, frac = some ds → ∀ c ∈ ds, c.isDigit

namespace Moment

def dateText (t : Moment) : Text :=
  padded 4 t.date.year.toNat ++ '-' :: (padded 2 t.date.month ++ '-' :: padded 2 t.date.day)

def clockText (t : Moment) : Text :=
  padded 2 t.hour ++ ':' :: (padded 2 t.minute ++ ':' :: padded 2 t.second)

def fracText (t : Moment) : Text :=
  match t.frac with
  | none => []
  | some ds => '.' :: ds

def localText (t : Moment) : Text := t.dateText ++ 'T' :: (t.clockText ++ t.fracText)

/-- `YYYY-MM-DDTHH:MM:SS[.fraction](Z|+HH:MM|-HH:MM)`. -/
def spell (t : Moment) : Text := t.localText ++ t.zone.spell

def fracSecs (t : Moment) : ℚ :=
  match t.frac with
  | none => 0
  | some ds => number ds / 10 ^ ds.length

def wholeSecs (t : Moment) : Int :=
  t.date.number * 86400 + t.hour * 3600 + t.minute * 60 + t.second - t.zone.ahead

def instant (t : Moment) : ℚ := t.wholeSecs + t.fracSecs

end Moment

section
variable {t : Moment}

theorem not_mem_padded {c : Char} (hc : ¬ c.isDigit) {k n : Nat} : c ∉ padded k n :=
  fun h => hc (padded_isDigit c h)

theorem not_mem_fracText {c : Char} (hc : ¬ c.isDigit) (hdot : c ≠ '.') : c ∉ t.fracText := by
  intro h
  rw [Moment.fracText] at h
  split at h
  · cases h
  · rename_i ds hds
    obtain rfl | h := List.mem_cons.mp h
    · exact hdot rfl
    · exact hc (t.frac_digits ds hds c h)

theorem not_mem_localText {c : Char} (hc : ¬ c.isDigit) (hsep : c ∉ ['-', 'T', ':', '.']) :
    c ∉ t.localText := by
  simp only [List.mem_cons, List.not_mem_nil, or_false, not_or] at hsep
  obtain ⟨hdash, ht, hcolon, hdot⟩ := hsep
  simp [Moment.localText, Moment.dateText, Moment.clockText, not_mem_padded hc, hdash, ht, hcolon,
    not_mem_fracText hc hdot]

theorem splitOn_pair {c : Char} {a b : Text} (ha : c ∉ a) (hb : c ∉ b) :
    (a ++ c :: b).splitOn c = [a, b] := by
  have hparts : ∀ part ∈ [a, b], c ∉ part := by simp [ha, hb]
  have h := List.splitOn_intercalate c hparts (by simp)
  simpa [List.intercalate] using h

theorem splitOn_triple {c : Char} {a b d : Text} (ha : c ∉ a) (hb : c ∉ b) (hd : c ∉ d) :
    (a ++ c :: (b ++ c :: d)).splitOn c = [a, b, d] := by
  have hparts : ∀ part ∈ [a, b, d], c ∉ part := by simp [ha, hb, hd]
  have h := List.splitOn_intercalate c hparts (by simp)
  simpa [List.intercalate] using h

def offsetParts : ZoneSuffix → Option (Bool × Text)
  | .utc => none
  | .offset negative hours minutes =>
    some (negative, padded 2 hours ++ ':' :: padded 2 minutes)

theorem bytes_localText : 10 < bytes t.localText := by
  refine Nat.lt_of_lt_of_le ?_ length_le_bytes
  simp only [Moment.localText, Moment.dateText, Moment.clockText, List.length_append,
    List.length_cons, padded_length]
  omega

theorem zone_spell : zone t.spell = (t.localText, offsetParts t.zone) := by
  have hz : 'Z' ∉ t.localText := not_mem_localText (by decide) (by decide)
  have hplus : '+' ∉ t.localText := not_mem_localText (by decide) (by decide)
  have hbytes := @bytes_localText t
  rw [zone, Moment.spell]
  cases t.zone with
  | utc =>
    have hsplit : rsplitOnce ['Z'] (t.localText ++ ['Z']) = some (t.localText, []) :=
      rsplitOnce_singleton.mpr ⟨rfl, by simp⟩
    simp only [ZoneSuffix.spell, hsplit, offsetParts]
  | offset negative hours minutes =>
    have htz {c : Char} (hc : ¬ c.isDigit) (hcolon : c ≠ ':') :
        c ∉ padded 2 hours ++ ':' :: padded 2 minutes := by
      simp [not_mem_padded hc, hcolon]
    cases negative with
    | false =>
      have hnone :
          rsplitOnce ['Z'] (t.localText ++ ZoneSuffix.spell (.offset false hours minutes)) =
            none := by
        rw [rsplitOnce_singleton_eq_none]
        simp [ZoneSuffix.spell, hz, not_mem_padded (c := 'Z') (by decide)]
      have hsplit :
          rsplitOnce ['+'] (t.localText ++ ZoneSuffix.spell (.offset false hours minutes)) =
            some (t.localText, padded 2 hours ++ ':' :: padded 2 minutes) :=
        rsplitOnce_singleton.mpr ⟨rfl, htz (by decide) (by decide)⟩
      simp [hnone, hsplit, offsetParts, Option.filter, hbytes]
    | true =>
      have hnone :
          rsplitOnce ['Z'] (t.localText ++ ZoneSuffix.spell (.offset true hours minutes)) =
            none := by
        rw [rsplitOnce_singleton_eq_none]
        simp [ZoneSuffix.spell, hz, not_mem_padded (c := 'Z') (by decide)]
      have hnoplus :
          rsplitOnce ['+'] (t.localText ++ ZoneSuffix.spell (.offset true hours minutes)) =
            none := by
        rw [rsplitOnce_singleton_eq_none]
        simp [ZoneSuffix.spell, hplus, not_mem_padded (c := '+') (by decide)]
      have hsplit :
          rsplitOnce ['-'] (t.localText ++ ZoneSuffix.spell (.offset true hours minutes)) =
            some (t.localText, padded 2 hours ++ ':' :: padded 2 minutes) :=
        rsplitOnce_singleton.mpr ⟨rfl, htz (by decide) (by decide)⟩
      simp [hnone, hnoplus, hsplit, offsetParts, Option.filter, hbytes]

theorem offsetFields_spell (hours minutes : Fin 100) :
    offsetFields (padded 2 hours ++ ':' :: padded 2 minutes) =
      ((hours : Int), (minutes : Int)) := by
  have hcolon : ¬ ':'.isDigit := by decide
  have hh : i64.parse (padded 2 hours) = some ((hours : Nat) : Int) :=
    Width.parse_padded (by decide) hours.isLt (by simp only [holds_i64]; omega)
  have hm : i64.parse (padded 2 minutes) = some ((minutes : Nat) : Int) :=
    Width.parse_padded (by decide) minutes.isLt (by simp only [holds_i64]; omega)
  rw [offsetFields, splitOn_pair (not_mem_padded hcolon) (not_mem_padded hcolon)]
  simp [hh, hm]

theorem offsetSecs_spell (z : ZoneSuffix) :
    ZoneFits (offsetParts z) ∧ offsetSecs (offsetParts z) = z.ahead := by
  cases z with
  | utc =>
    refine ⟨?_, rfl⟩
    intro negative tz h
    cases h
  | offset negative hours minutes =>
    have hfields := offsetFields_spell hours minutes
    constructor
    · intro negative' tz h
      cases h
      simp only [OffsetFits, hfields, holds_i64]
      omega
    · simp only [offsetParts, offsetSecs, hfields, ZoneSuffix.ahead]

def Moment.stamp (t : Moment) : Stamp :=
  ⟨t.date.year, t.date.month, t.date.day, t.hour, t.minute, t.second, t.frac⟩

theorem splitOnce_frac :
    splitOnce ['.'] (t.clockText ++ t.fracText) = t.frac.map fun ds => (t.clockText, ds) := by
  have hdot : '.' ∉ t.clockText := by
    simp [Moment.clockText, not_mem_padded (c := '.') (by decide)]
  rw [Moment.fracText]
  cases t.frac with
  | none =>
    rw [Option.map_none, splitOnce_singleton_eq_none]
    simpa using hdot
  | some ds => exact splitOnce_singleton.mpr ⟨rfl, hdot⟩

theorem parse_two {n : Nat} (h : n < 100) : i64.parse (padded 2 n) = some (n : Int) :=
  Width.parse_padded (by decide) h (by simp only [holds_i64]; omega)

theorem readStamp_localText : readStamp t.localText = some t.stamp := by
  have hdash : ¬ '-'.isDigit := by decide
  have hcolon : ¬ ':'.isDigit := by decide
  have hT : 'T' ∉ t.dateText := by
    simp [Moment.dateText, not_mem_padded (c := 'T') (by decide)]
  have hsplit : splitOnce ['T'] t.localText = some (t.dateText, t.clockText ++ t.fracText) :=
    splitOnce_singleton.mpr ⟨rfl, hT⟩
  have hdate : t.dateText.splitOn '-' =
      [padded 4 t.date.year.toNat, padded 2 t.date.month, padded 2 t.date.day] :=
    splitOn_triple (not_mem_padded hdash) (not_mem_padded hdash) (not_mem_padded hdash)
  have hclock : t.clockText.splitOn ':' =
      [padded 2 t.hour, padded 2 t.minute, padded 2 t.second] :=
    splitOn_triple (not_mem_padded hcolon) (not_mem_padded hcolon) (not_mem_padded hcolon)
  have hyear := t.year_nonneg
  have hyear' := t.year_le
  have hmonth := t.date.month_le
  have hday := t.date.day_le.trans (monthDays_bounds _ _).2
  have hhour := t.hour_lt
  have hminute := t.minute_lt
  have hsecond := t.second_lt
  have hy : i64.parse (padded 4 t.date.year.toNat) = some t.date.year := by
    rw [Width.parse_padded (by decide) (by omega) (by simp only [holds_i64]; omega)]
    simp [hyear]
  have hmo : u32.parse (padded 2 t.date.month) = some (t.date.month : Int) :=
    Width.parse_padded (by decide) (by omega) (by simp only [holds_u32]; omega)
  have hd : u32.parse (padded 2 t.date.day) = some (t.date.day : Int) :=
    Width.parse_padded (by decide) (by omega) (by simp only [holds_u32]; omega)
  have hh := parse_two (n := t.hour) (by omega)
  have hmi := parse_two (n := t.minute) (by omega)
  have hs := parse_two (n := t.second) (by omega)
  have hfrac := @splitOnce_frac t
  rw [readStamp, hsplit]
  cases hds : t.frac with
  | none =>
    have hnone : t.fracText = [] := by rw [Moment.fracText, hds]
    rw [hds, hnone, List.append_nil] at hfrac
    simp [hfrac, hnone, hdate, hclock, hy, hmo, hd, hh, hmi, hs, Moment.stamp, hds]
  | some ds =>
    rw [hds] at hfrac
    simp [hfrac, hdate, hclock, hy, hmo, hd, hh, hmi, hs, Moment.stamp, hds]

theorem bytes_digits {ds : Text} (h : ∀ c ∈ ds, c.isDigit) : bytes ds = ds.length := by
  induction ds with
  | nil => rfl
  | cons c ds ih =>
    have hc : c.isDigit := h c (by simp)
    have hsize : c.utf8Size = 1 := by
      simp only [Char.isDigit, Bool.and_eq_true, decide_eq_true_eq] at hc
      rw [Char.utf8Size_eq_one_iff]
      exact UInt32.le_trans hc.2 (by decide)
    have hrest := ih fun d hd => h d (by simp [hd])
    simp only [bytes, List.map_cons, List.sum_cons, List.length_cons, hsize] at hrest ⊢
    omega

theorem floor_frac {n k z : Nat} (hlow : z * 10 ^ k ≤ n * 1000)
    (hhigh : n * 1000 < (z + 1) * 10 ^ k) : ⌊((n : ℚ) / 10 ^ k * 1000)⌋ = (z : Int) := by
  have hpos : (0 : ℚ) < 10 ^ k := by positivity
  have heq : (n : ℚ) / 10 ^ k * 1000 = n * 1000 / 10 ^ k := by ring
  rw [Int.floor_eq_iff, heq, le_div_iff₀ hpos, div_lt_iff₀ hpos]
  exact_mod_cast And.intro hlow hhigh

theorem millis_bounds {ds : Text} (h : ∀ c ∈ ds, c.isDigit) :
    number (ds.take 3) * 10 ^ (3 - ds.length) * 10 ^ ds.length ≤ number ds * 1000 ∧
      number ds * 1000 < (number (ds.take 3) * 10 ^ (3 - ds.length) + 1) * 10 ^ ds.length := by
  have hpos : 0 < 10 ^ ds.length := Nat.pow_pos (by decide)
  by_cases hshort : ds.length ≤ 3
  · have hpow : 10 ^ (3 - ds.length) * 10 ^ ds.length = 1000 := by
      rw [← Nat.pow_add, Nat.sub_add_cancel hshort]
    rw [List.take_of_length_le hshort, Nat.add_mul, Nat.mul_assoc, hpow]
    omega
  · have hsplit := number_join (a := ds.take 3) (b := ds.drop 3)
    have hrest : number (ds.drop 3) < 10 ^ (ds.drop 3).length :=
      number_lt fun c hc => h c (List.mem_of_mem_drop hc)
    have hlen : 3 - ds.length = 0 := by omega
    have hpow : 10 ^ ds.length = 1000 * 10 ^ (ds.drop 3).length := by
      have hadd : ds.length = 3 + (ds.drop 3).length := by
        rw [List.length_drop]
        omega
      rw [hadd, Nat.pow_add]
    rw [List.take_append_drop] at hsplit
    rw [hlen, hpow, hsplit, Nat.pow_zero, Nat.mul_one]
    generalize 10 ^ (ds.drop 3).length = unit at *
    have hassoc : number (ds.take 3) * (1000 * unit) = number (ds.take 3) * unit * 1000 := by ring
    have hnext : (number (ds.take 3) + 1) * (1000 * unit) =
        number (ds.take 3) * unit * 1000 + 1000 * unit := by ring
    rw [hassoc, hnext]
    omega

theorem fracValue_frac : fracValue t.frac = ⌊t.fracSecs * 1000⌋ := by
  rw [Moment.fracSecs]
  cases hfrac : t.frac with
  | none => simp [fracValue]
  | some ds =>
    have hdigits := t.frac_digits ds hfrac
    obtain ⟨hlow, hhigh⟩ := millis_bounds hdigits
    simp only
    rw [floor_frac hlow hhigh]
    have htake : ∀ c ∈ ds.take 3, c.isDigit := fun c hc => hdigits c (List.mem_of_mem_take hc)
    have hbytes : min (bytes ds) 3 = bytes (ds.take 3) := by
      rw [bytes_digits hdigits, bytes_digits htake, List.length_take, Nat.min_comm]
    have hslice : sliceTo ds (min (bytes ds) 3) = .ok (ds.take 3) := by
      have h := sliceTo_append (a := ds.take 3) (b := ds.drop 3)
      rwa [List.take_append_drop, ← hbytes] at h
    have hscale : 3 - min (bytes ds) 3 = 3 - ds.length := by
      rw [bytes_digits hdigits]
      omega
    simp only [fracValue, hslice, hscale, Except.toOption, Option.bind_some]
    by_cases hnil : ds.take 3 = []
    · rw [hnil]
      rfl
    · have hlt := number_lt htake
      have hle : 10 ^ (ds.take 3).length ≤ 10 ^ 3 :=
        Nat.pow_le_pow_right (by decide) (by simp)
      have hparse : i64.parse (ds.take 3) = some (number (ds.take 3) : Int) := by
        rw [Width.parse_of_digits hnil htake, Option.filter_some, if_pos]
        simp only [holds_i64, decide_eq_true_eq]
        omega
      rw [hparse]
      push_cast
      rfl

theorem number_bounds : -800000 ≤ t.date.number ∧ t.date.number ≤ 3000000 := by
  have hlow := t.year_nonneg
  have hhigh := t.year_le
  have hwithin := number_within t.date
  have hlen := yearLength_le t.date.year
  simp only [Date.number, yearsDays]
  omega

theorem stamp_fits : t.stamp.Fits t.zone.ahead ∧ t.stamp.secs - t.zone.ahead = t.wholeSecs := by
  have hnumber := @number_bounds t
  have hmonth := t.date.month_le
  have hday := t.date.day_le.trans (monthDays_bounds _ _).2
  have hhour := t.hour_lt
  have hminute := t.minute_lt
  have hsecond := t.second_lt
  have hfrac := @fracValue_bound t.frac
  have hahead : -400000 ≤ t.zone.ahead ∧ t.zone.ahead ≤ 400000 := by
    cases t.zone with
    | utc => decide
    | offset negative hours minutes =>
      simp only [ZoneSuffix.ahead]
      split
      all_goals omega
  have hdays : civilToDays t.date.year t.date.month t.date.day = .ok t.date.number := by
    refine civilToDays_number ⟨?_, ?_⟩
    all_goals simp only [holds_i64]
    all_goals omega
  rw [civilToDays_eq_ok (by simp only [holds_u32]; omega) (by simp only [holds_u32]; omega)
    (by simp only [holds_i64]; omega)] at hdays
  obtain ⟨hdate, hcivil⟩ := hdays
  simp only [Stamp.fits_iff, Stamp.secs, Stamp.daySecs, Moment.stamp, ← hcivil, holds_i64,
    Moment.wholeSecs, and_true]
  refine ⟨hdate, ?_⟩
  omega

theorem floor_instant : ⌊t.instant * 1000⌋ = t.wholeSecs * 1000 + fracValue t.frac := by
  have hsplit : t.instant * 1000 = t.fracSecs * 1000 + ((t.wholeSecs * 1000 : Int) : ℚ) := by
    rw [Moment.instant]
    push_cast
    ring
  rw [hsplit, Int.floor_add_intCast, fracValue_frac]
  omega

/-- A written instant is read to the millisecond. -/
theorem isoMs_spell (t : Moment) : isoMs t.spell = .ok ⌊t.instant * 1000⌋ := by
  have hne : t.spell.isEmpty = false := by
    simp [Moment.spell, Moment.localText]
  obtain ⟨hzone, hahead⟩ := offsetSecs_spell t.zone
  obtain ⟨hfits, hsecs⟩ := @stamp_fits t
  have hmo : u32.Holds t.stamp.mo ∧ u32.Holds t.stamp.d := readStamp_holds readStamp_localText
  have hsplit : splitZone t.spell = .ok (t.localText, t.zone.ahead) := by
    rw [splitZone_eq_ok, zone_spell]
    exact ⟨hzone, by rw [hahead]⟩
  rw [isoMs, hne, hsplit, floor_instant, ← hsecs]
  have hms := (epochMs_eq_ok hmo.1 hmo.2).mpr ⟨hfits, rfl⟩
  simp only [Bool.false_eq_true, if_false, bind_eq_ok (r := Except.ok _), Except.ok.injEq,
    exists_eq_left', readStamp_localText]
  exact hms

end

/-- Every written instant is read to its millisecond, so instants keep their order whatever their
offsets; dates and their days, counted one by one from the epoch, are converted to each other as
far as the conversion returns. -/
theorem time_conversion_exact :
    (∀ t : Moment, isoMs t.spell = .ok ⌊t.instant * 1000⌋) ∧
      (∀ a b : Moment, a.instant ≤ b.instant →
        ∃ x y, isoMs a.spell = .ok x ∧ isoMs b.spell = .ok y ∧ x ≤ y) ∧
      (∀ f : Date → Int, f Date.epoch = 0 → (∀ d, f d.next = f d + 1) →
        ∀ d, DayInRange (f d) → civilToDays d.year d.month d.day = .ok (f d) ∧
          civilFromDays (f d) = .ok (d.year, d.month, d.day)) ∧
      (∀ n, DayInRange n → ∃ d : Date,
        civilFromDays n = .ok (d.year, d.month, d.day) ∧
          civilToDays d.year d.month d.day = .ok n) ∧
      ∀ n, i64.Holds n → (Returns (civilFromDays n) ↔ DayInRange n) := by
  refine ⟨isoMs_spell, ?_, ?_, ?_, fun n => civilFromDays_returns_iff⟩
  · intro a b hle
    refine ⟨_, _, isoMs_spell a, isoMs_spell b, Int.floor_le_floor ?_⟩
    linarith
  · intro f hepoch hnext d hd
    rw [eq_number hepoch hnext d] at hd ⊢
    have hdate := civilFromDays_eq_ok hd
    rw [ofNumber_number] at hdate
    exact ⟨civilToDays_number hd, hdate⟩
  · intro n hn
    have hdays := civilToDays_number (d := Date.ofNumber n) (by rwa [number_ofNumber])
    rw [number_ofNumber] at hdays
    exact ⟨Date.ofNumber n, civilFromDays_eq_ok hn, hdays⟩

def leapDay : Date := ⟨2000, 2, 29, by decide, by decide, by decide, by decide⟩

def leapMorning : Moment :=
  { date := leapDay, hour := 1, minute := 30, second := 0, frac := some ['2', '5', '0', '9'],
    zone := .offset false 2 0, year_nonneg := by decide, year_le := by decide,
    hour_lt := by decide, minute_lt := by decide, second_lt := by decide,
    frac_digits := by simp }

theorem time_conversion_leap_day :
    isoMs "2000-02-29T01:30:00.2509+02:00".toList = .ok ⌊leapMorning.instant * 1000⌋ ∧
      civilToDays 2000 2 29 = .ok 11016 ∧ civilFromDays 11016 = .ok (2000, 2, 29) := by
  have hspell : "2000-02-29T01:30:00.2509+02:00".toList = leapMorning.spell := by decide
  rw [hspell]
  exact ⟨time_conversion_exact.1 leapMorning, time_conversion_exact.2.2.1 Date.number number_epoch
    number_next leapDay (by decide)⟩

end Hunter
