import Hunter.Checked
import Hunter.Text

set_option autoImplicit false

namespace Hunter
open Checked Delimited

/-- Hours and minutes of an offset; what does not parse is 0. -/
def offsetFields (tz : Text) : Int × Int :=
  let parts := tz.splitOn ':'
  ((parts[0]?.bind i64.parse).getD 0, (parts[1]?.bind i64.parse).getD 0)

def parseTzOffset (tz : Text) : Result Int := do
  let (h, m) := offsetFields tz
  let hours ← i64.fit (h * 3600)
  let minutes ← i64.fit (m * 60)
  i64.fit (hours + minutes)

/-- The part before the zone suffix, and the suffix in seconds. A sign counts as a zone's only
past the date. -/
def splitZone (ts : Text) : Result (Text × Int) :=
  match rfind 'Z' ts with
  | some pos => do
    let dateTime ← sliceTo ts pos
    pure (dateTime, 0)
  | none =>
    match (rfind '+' ts).filter fun pos => 10 < pos with
    | some pos => do
      let tz ← sliceFrom ts (pos + 1)
      let secs ← parseTzOffset tz
      let dateTime ← sliceTo ts pos
      pure (dateTime, secs)
    | none =>
      match (rfind '-' ts).filter fun pos => 10 < pos with
      | some pos => do
        let tz ← sliceFrom ts (pos + 1)
        let secs ← parseTzOffset tz
        let dateTime ← sliceTo ts pos
        let negated ← i64.fit (-secs)
        pure (dateTime, negated)
      | none => pure (ts, 0)

structure Stamp where
  y : Int
  mo : Int
  d : Int
  h : Int
  mi : Int
  s : Int
  frac : Option Text
deriving DecidableEq, Repr

def readStamp (dateTime : Text) : Option Stamp :=
  match splitOnce ['T'] dateTime with
  | none => none
  | some (date, timeFull) =>
    let (clock, frac) := match splitOnce ['.'] timeFull with
      | some (clock, frac) => (clock, some frac)
      | none => (timeFull, none)
    match date.splitOn '-', clock.splitOn ':' with
    | [y, mo, d], [h, mi, s] => do
      let y ← i64.parse y
      let mo ← u32.parse mo
      let d ← u32.parse d
      let h ← i64.parse h
      let mi ← i64.parse mi
      let s ← i64.parse s
      pure { y, mo, d, h, mi, s, frac }
    | _, _ => none

/-- The first three bytes of a fraction, scaled to milliseconds. A slice that would cut a character
counts as nothing. -/
def fracMs : Option Text → Result Int
  | none => pure 0
  | some frac =>
    let digits := min (bytes frac) 3
    let n := ((sliceTo frac digits).toOption.bind i64.parse).getD 0
    i64.fit (n * 10 ^ (3 - digits))

/-- Days since 1970-01-01, each step in the type the source computes it in. -/
def civilToDays (y m d : Int) : Result Int := do
  let y ← if m ≤ 2 then i64.fit (y - 1) else pure y
  let era := y / 400
  let yoe := y % 400
  let mp ← if m > 2 then u32.fit (m - 3) else u32.fit (m + 9)
  let scaled ← u32.fit (153 * mp)
  let shifted ← u32.fit (scaled + 2)
  let counted ← u32.fit (shifted / 5 + d)
  let doy ← u32.fit (counted - 1)
  let years ← u32.fit (yoe * 365)
  let leaps ← u32.fit (years + yoe / 4)
  let centuries ← u32.fit (leaps - yoe / 100)
  let doe ← u32.fit (centuries + doy)
  let eras ← i64.fit (era * 146097)
  let days ← i64.fit (eras + doe)
  i64.fit (days - 719468)

def epochMs (t : Stamp) (tzOffsetSecs : Int) : Result Int := do
  let frac ← fracMs t.frac
  let epochDays ← civilToDays t.y t.mo t.d
  let daySecs ← i64.fit (epochDays * 86400)
  let hourSecs ← i64.fit (t.h * 3600)
  let toHour ← i64.fit (daySecs + hourSecs)
  let minuteSecs ← i64.fit (t.mi * 60)
  let toMinute ← i64.fit (toHour + minuteSecs)
  let toSecond ← i64.fit (toMinute + t.s)
  let epochSecs ← i64.fit (toSecond - tzOffsetSecs)
  let ms ← i64.fit (epochSecs * 1000)
  i64.fit (ms + frac)

/-- A forge's timestamp in epoch ms, 0 when it is absent or unparseable. -/
def isoMs (ts : Text) : Result Int :=
  if ts.isEmpty then pure 0
  else do
    let (dateTime, tzOffsetSecs) ← splitZone ts
    match readStamp dateTime with
    | none => pure 0
    | some t => epochMs t tzOffsetSecs

end Hunter
