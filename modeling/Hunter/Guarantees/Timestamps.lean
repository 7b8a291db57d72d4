import Hunter.Scheduler.Timestamps

set_option autoImplicit false

namespace Hunter
open Checked Delimited

/-- The part before the zone suffix, and the suffix with its sign (`true` for `-`). -/
def zone (ts : Text) : Text × Option (Bool × Text) :=
  match rsplitOnce ['Z'] ts with
  | some (dateTime, _) => (dateTime, none)
  | none =>
    match (rsplitOnce ['+'] ts).filter fun p => 10 < bytes p.1 with
    | some (dateTime, tz) => (dateTime, some (false, tz))
    | none =>
      match (rsplitOnce ['-'] ts).filter fun p => 10 < bytes p.1 with
      | some (dateTime, tz) => (dateTime, some (true, tz))
      | none => (ts, none)

def offsetSecs : Option (Bool × Text) → Int
  | none => 0
  | some (negative, tz) =>
    let secs := (offsetFields tz).1 * 3600 + (offsetFields tz).2 * 60
    if negative then -secs else secs

/-- Hours, minutes and their sum stay within 64 bits. -/
def OffsetFits (tz : Text) : Prop :=
  i64.Holds ((offsetFields tz).1 * 3600) ∧ i64.Holds ((offsetFields tz).2 * 60) ∧
    i64.Holds ((offsetFields tz).1 * 3600 + (offsetFields tz).2 * 60)

theorem parseTzOffset_eq_ok {tz : Text} {secs : Int} :
    parseTzOffset tz = .ok secs ↔
      OffsetFits tz ∧ (offsetFields tz).1 * 3600 + (offsetFields tz).2 * 60 = secs := by
  simp only [parseTzOffset, OffsetFits, Width.fit_bind_eq_ok, Width.fit_eq_ok, and_assoc]

theorem offset_neg_holds {tz : Text} (h : OffsetFits tz) :
    i64.Holds (-((offsetFields tz).1 * 3600 + (offsetFields tz).2 * 60)) := by
  obtain ⟨-, -, hsum⟩ := h
  simp only [holds_i64] at hsum ⊢
  omega

def ZoneFits (z : Option (Bool × Text)) : Prop :=
  ∀ negative tz, z = some (negative, tz) → OffsetFits tz

theorem slices_of_rsplitOnce {ts a b : Text} {c : Char} (hc : c.utf8Size = 1)
    (h : rsplitOnce [c] ts = some (a, b)) :
    sliceTo ts (bytes a) = .ok a ∧ sliceFrom ts (bytes a + 1) = .ok b := by
  obtain ⟨rfl, -⟩ := rsplitOnce_singleton.mp h
  exact ⟨sliceTo_append, sliceFrom_succ hc⟩

theorem rfind_filter {ts : Text} {c : Char} :
    (rfind c ts).filter (fun pos => 10 < pos) =
      ((rsplitOnce [c] ts).filter fun p => 10 < bytes p.1).map fun p => bytes p.1 := by
  rw [rfind]
  cases rsplitOnce [c] ts with
  | none => rfl
  | some p =>
    by_cases hp : 10 < bytes p.1
    · simp [Option.filter, hp]
    · simp [Option.filter, hp]

theorem splitZone_eq_ok {ts : Text} {p : Text × Int} :
    splitZone ts = .ok p ↔
      ZoneFits (zone ts).2 ∧ ((zone ts).1, offsetSecs (zone ts).2) = p := by
  rw [splitZone, rfind_filter, rfind_filter, rfind]
  cases hz : rsplitOnce ['Z'] ts with
  | some q =>
    obtain ⟨a, b⟩ := q
    obtain ⟨hto, -⟩ := slices_of_rsplitOnce (by decide) hz
    simp [zone, hz, hto, ZoneFits, offsetSecs]
  | none =>
    cases hplus : (rsplitOnce ['+'] ts).filter fun p => 10 < bytes p.1 with
    | some q =>
      obtain ⟨a, b⟩ := q
      obtain ⟨hp, -⟩ := Option.filter_eq_some_iff.mp hplus
      obtain ⟨hto, hfrom⟩ := slices_of_rsplitOnce (by decide) hp
      simp [zone, hz, hplus, hto, hfrom, bind_eq_ok, parseTzOffset_eq_ok, ZoneFits, offsetSecs,
        and_assoc]
    | none =>
      cases hminus : (rsplitOnce ['-'] ts).filter fun p => 10 < bytes p.1 with
      | some q =>
        obtain ⟨a, b⟩ := q
        obtain ⟨hp, -⟩ := Option.filter_eq_some_iff.mp hminus
        obtain ⟨hto, hfrom⟩ := slices_of_rsplitOnce (by decide) hp
        simp only [zone, hz, hplus, hminus, Option.map_none, Option.map_some, hto, hfrom,
          bind_eq_ok, Except.ok.injEq, exists_eq_left', parseTzOffset_eq_ok, Width.fit_eq_ok,
          pure_eq_ok, ZoneFits, offsetSecs, Option.some.injEq, Prod.mk.injEq, if_true]
        constructor
        · rintro ⟨secs, ⟨hfits, rfl⟩, negated, ⟨-, rfl⟩, hp⟩
          refine ⟨?_, hp⟩
          rintro _ _ ⟨rfl, rfl⟩
          exact hfits
        · rintro ⟨hfits, hp⟩
          have hb := hfits true b ⟨rfl, rfl⟩
          exact ⟨_, ⟨hb, rfl⟩, _, ⟨offset_neg_holds hb, rfl⟩, hp⟩
      | none => simp [zone, hz, hplus, hminus, ZoneFits, offsetSecs]

def marchMonth (m : Int) : Int := if m > 2 then m - 3 else m + 9

def civilYear (y m : Int) : Int := if m ≤ 2 then y - 1 else y

def dayInYear (m d : Int) : Int := (153 * marchMonth m + 2) / 5 + d

def yearDays (y : Int) : Int := y % 400 * 365 + y % 400 / 4 - y % 400 / 100

def civilDays (y m d : Int) : Int :=
  civilYear y m / 400 * 146097 + (yearDays (civilYear y m) + (dayInYear m d - 1)) - 719468

/-- The month and day leave every unsigned step of the formula in range. -/
@[mk_iff] structure DateFits (y m d : Int) : Prop where
  month : m ≤ 28071684
  notMarchZero : ¬ (m = 3 ∧ d = 0)
  day : dayInYear m d ≤ 4294967295
  era : yearDays (civilYear y m) + dayInYear m d ≤ 4294967296

theorem civilToDays_eq_ok {y m d n : Int} (hm : u32.Holds m) (hd : u32.Holds d)
    (hsecs : i64.Holds (n * 86400)) :
    civilToDays y m d = .ok n ↔ DateFits y m d ∧ n = civilDays y m d := by
  simp only [holds_u32] at hm hd
  simp only [holds_i64] at hsecs
  rw [civilToDays, dateFits_iff]
  simp only [civilDays, civilYear, dayInYear, marchMonth, yearDays]
  by_cases hwinter : m ≤ 2
  · have hgt : ¬ m > 2 := by omega
    simp only [hwinter, hgt, if_true, if_false, Width.fit_bind_eq_ok, Width.fit_eq_ok, holds_i64,
      holds_u32]
    constructor
    · intro h
      omega
    · intro h
      omega
  · have hgt : m > 2 := by omega
    simp only [hwinter, hgt, if_true, if_false, pure_bind, Width.fit_bind_eq_ok, Width.fit_eq_ok,
      holds_i64, holds_u32]
    constructor
    · intro h
      omega
    · intro h
      omega

def fracValue : Option Text → Int
  | none => 0
  | some frac =>
    let digits := min (bytes frac) 3
    ((sliceTo frac digits).toOption.bind i64.parse).getD 0 * 10 ^ (3 - digits)

theorem fracValue_bound {frac : Option Text} : -999 ≤ fracValue frac ∧ fracValue frac ≤ 999 := by
  cases frac with
  | none => decide
  | some frac =>
    simp only [fracValue]
    have hdigits : min (bytes frac) 3 ≤ 3 := Nat.min_le_right _ _
    generalize min (bytes frac) 3 = digits at hdigits ⊢
    cases hn : (sliceTo frac digits).toOption.bind i64.parse with
    | none => simp
    | some n =>
      obtain ⟨t, ht, hparse⟩ := Option.bind_eq_some_iff.mp hn
      have hslice : sliceTo frac digits = .ok t := by
        cases hs : sliceTo frac digits with
        | error e => simp [hs, Except.toOption] at ht
        | ok t' =>
          simp only [hs, Except.toOption, Option.some.injEq] at ht
          rw [ht]
      have hlen : t.length ≤ digits := by
        have hle := length_le_bytes (a := t)
        rwa [bytes_of_sliceTo hslice] at hle
      have hlt : n.natAbs < 10 ^ digits :=
        lt_of_lt_of_le (Width.natAbs_lt_of_parse hparse) (Nat.pow_le_pow_right (by decide) hlen)
      simp only [Option.getD_some]
      obtain rfl | rfl | rfl | rfl : digits = 0 ∨ digits = 1 ∨ digits = 2 ∨ digits = 3 := by omega
      all_goals omega

theorem fracMs_eq {frac : Option Text} : fracMs frac = .ok (fracValue frac) := by
  have hbound := @fracValue_bound frac
  cases frac with
  | none => rfl
  | some frac =>
    refine Width.fit_eq_ok.mpr ⟨?_, rfl⟩
    simp only [fracValue] at hbound
    simp only [holds_i64]
    omega

namespace Stamp

def daySecs (t : Stamp) : Int := civilDays t.y t.mo t.d * 86400

def secs (t : Stamp) : Int := t.daySecs + t.h * 3600 + t.mi * 60 + t.s

/-- The date is one the calendar formula can take, and every partial sum of seconds and
milliseconds is within 64 bits. -/
@[mk_iff] structure Fits (t : Stamp) (tz : Int) : Prop where
  date : DateFits t.y t.mo t.d
  days : i64.Holds t.daySecs
  hours : i64.Holds (t.h * 3600)
  toHour : i64.Holds (t.daySecs + t.h * 3600)
  minutes : i64.Holds (t.mi * 60)
  toMinute : i64.Holds (t.daySecs + t.h * 3600 + t.mi * 60)
  toSecond : i64.Holds t.secs
  millis : i64.Holds ((t.secs - tz) * 1000)
  frac : i64.Holds ((t.secs - tz) * 1000 + fracValue t.frac)

end Stamp

theorem epochMs_eq_ok {t : Stamp} {tz ms : Int} (hmo : u32.Holds t.mo) (hd : u32.Holds t.d) :
    epochMs t tz = .ok ms ↔ t.Fits tz ∧ (t.secs - tz) * 1000 + fracValue t.frac = ms := by
  rw [epochMs, fracMs_eq, Stamp.fits_iff]
  simp only [Stamp.secs, Stamp.daySecs, bind_eq_ok (r := .ok _),
    bind_eq_ok (r := civilToDays _ _ _), Except.ok.injEq, exists_eq_left',
    Width.fit_bind_eq_ok, Width.fit_eq_ok]
  constructor
  · rintro ⟨n, hn, hdays, hrest⟩
    obtain ⟨hdate, rfl⟩ := (civilToDays_eq_ok hmo hd hdays).mp hn
    obtain ⟨hh, hth, hm, htm, hts, -, hms, hfrac, heq⟩ := hrest
    exact ⟨⟨hdate, hdays, hh, hth, hm, htm, hts, hms, hfrac⟩, heq⟩
  · rintro ⟨⟨hdate, hdays, hh, hth, hm, htm, hts, hms, hfrac⟩, heq⟩
    have hn := (civilToDays_eq_ok hmo hd hdays).mpr ⟨hdate, rfl⟩
    -- a product within 64 bits has its factor there too
    have htz : i64.Holds (civilDays t.y t.mo t.d * 86400 + t.h * 3600 + t.mi * 60 + t.s - tz) := by
      simp only [holds_i64] at hms ⊢
      omega
    exact ⟨_, hn, hdays, hh, hth, hm, htm, hts, htz, hms, hfrac, heq⟩

theorem readStamp_holds {dateTime : Text} {t : Stamp} (h : readStamp dateTime = some t) :
    u32.Holds t.mo ∧ u32.Holds t.d := by
  rw [readStamp] at h
  split at h
  · cases h
  · rename_i date timeFull _
    generalize (match splitOnce ['.'] timeFull with
      | some (clock, frac) => (clock, some frac)
      | none => (timeFull, none)) = clockAndFrac at h
    split at h
    split at h
    · simp only [bind, Option.bind_eq_some_iff, pure, Option.some.injEq] at h
      obtain ⟨y, -, mo, hmo, d, hd, h, -, mi, -, s, -, rfl⟩ := h
      exact ⟨Width.holds_of_parse hmo, Width.holds_of_parse hd⟩
    · cases h

/-- The timestamp's zone and, when its fields parse, its fields keep the arithmetic in range. -/
def TimestampFits (ts : Text) : Prop :=
  ZoneFits (zone ts).2 ∧ ∀ t, readStamp (zone ts).1 = some t → t.Fits (offsetSecs (zone ts).2)

/-- No slice is off a character boundary and the only overflows are those of out-of-range fields. -/
theorem isoMs_returns_iff (ts : Text) : Returns (isoMs ts) ↔ TimestampFits ts := by
  cases ts with
  | nil =>
    have hfits : TimestampFits [] := by
      refine ⟨fun negative tz h => ?_, fun t h => ?_⟩
      · cases h
      · cases h
    exact iff_of_true ⟨0, rfl⟩ hfits
  | cons c ts =>
    simp only [isoMs, Returns, List.isEmpty_cons, Bool.false_eq_true, if_false, bind_eq_ok,
      splitZone_eq_ok]
    constructor
    · rintro ⟨ms, _, ⟨hzone, rfl⟩, h⟩
      refine ⟨hzone, fun t ht => ?_⟩
      obtain ⟨hmo, hd⟩ := readStamp_holds ht
      simp only [ht] at h
      exact ((epochMs_eq_ok hmo hd).mp h).1
    · rintro ⟨hzone, hstamp⟩
      cases ht : readStamp (zone (c :: ts)).1 with
      | none => exact ⟨0, _, ⟨hzone, rfl⟩, by simp [ht]⟩
      | some t =>
        obtain ⟨hmo, hd⟩ := readStamp_holds ht
        have hms := (epochMs_eq_ok hmo hd).mpr ⟨hstamp t ht, rfl⟩
        refine ⟨(t.secs - offsetSecs (zone (c :: ts)).2) * 1000 + fracValue t.frac, _,
          ⟨hzone, rfl⟩, ?_⟩
        simp only [ht]
        exact hms

/-- Day zero of March is one below the smallest unsigned number. -/
theorem isoMs_march_zero : ¬ Returns (isoMs "2024-03-00T00:00:00Z".toList) := by
  have h : isoMs "2024-03-00T00:00:00Z".toList = .error .overflow := by decide +kernel
  rw [h]
  rintro ⟨ms, hms⟩
  cases hms

example : isoMs "2024-01-15T12:30:45.250+01:00".toList = .ok 1705318245250 := by decide +kernel

end Hunter
