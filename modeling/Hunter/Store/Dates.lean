import Hunter.Checked

set_option autoImplicit false

namespace Hunter
open Checked

/-- `as u32`. -/
def asU32 (x : Int) : Int := x % 4294967296

/-- The date of a day counted from 1970-01-01; every division truncates, as the source's do. -/
def civilFromDays (days : Int) : Result (Int × Int × Int) := do
  let z ← i64.fit (days + 719468)
  let floored ← (if 0 ≤ z then pure z else i64.fit (z - 146096))
  let era := floored.tdiv 146097
  let eraStart ← i64.fit (era * 146097)
  let doe ← i64.fit (z - eraStart)
  let fours ← i64.fit (doe - doe.tdiv 1460)
  let centuries ← i64.fit (fours + doe.tdiv 36524)
  let whole ← i64.fit (centuries - doe.tdiv 146096)
  let yoe := whole.tdiv 365
  let years ← i64.fit (365 * yoe)
  let leaps ← i64.fit (years + yoe.tdiv 4)
  let yearStart ← i64.fit (leaps - yoe.tdiv 100)
  let doy ← i64.fit (doe - yearStart)
  let scaled ← i64.fit (5 * doy)
  let rounded ← i64.fit (scaled + 2)
  let mp := rounded.tdiv 153
  let months ← i64.fit (153 * mp)
  let monthStart ← i64.fit (months + 2)
  let before ← i64.fit (doy - monthStart.tdiv 5)
  let day ← i64.fit (before + 1)
  let month ← (if mp < 10 then i64.fit (mp + 3) else i64.fit (mp - 9))
  let d := asU32 day
  let m := asU32 month
  let eraYears ← i64.fit (era * 400)
  let marchYear ← i64.fit (yoe + eraYears)
  let y ← i64.fit (marchYear + if m ≤ 2 then 1 else 0)
  pure (y, m, d)

end Hunter
