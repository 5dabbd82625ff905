import SgKeyDist.ByteOrder

namespace SgKeyDist.Iso8601

open SgKeyDist.ByteOrder

/-- `system_clock::to_time_t`, which `fmt::gmtime` applies: whole seconds, truncated toward
zero. -/
def toTimeT (tp : Int) : Int := tp.tdiv 1000000000

/-- The proleptic Gregorian date of a count of days from 1970-01-01, as `gmtime` gives it:
year, month 1-12 and day 1-31 (the `civil_from_days` algorithm of the `date` library). -/
def civilFromDays (days : Int) : Int × Nat × Nat :=
  let z := days + 719468
  let era := z / 146097
  let doe := z - era * 146097
  let yoe := (doe - doe / 1460 + doe / 36524 - doe / 146096) / 365
  let doy := doe - (365 * yoe + yoe / 4 - yoe / 100)
  let mp := (5 * doy + 2) / 153
  let d := doy - (153 * mp + 2) / 5 + 1
  let m := if mp < 10 then mp + 3 else mp - 9
  (yoe + era * 400 + (if m ≤ 2 then 1 else 0), m.toNat, d.toNat)

/-- The day count of a proleptic Gregorian date (`days_from_civil` of the `date` library). -/
def daysFromCivil (y : Int) (m d : Nat) : Int :=
  let y := if m ≤ 2 then y - 1 else y
  let era := y / 400
  let yoe := y - era * 400
  let mp : Int := if 2 < m then m - 3 else m + 9
  let doy := (153 * mp + 2) / 5 + d - 1
  let doe := yoe * 365 + yoe / 4 - yoe / 100 + doy
  era * 146097 + doe - 719468

/-- `%G`: the ISO 8601 week-based year, the calendar year of the Thursday of the date's
Monday-to-Sunday week. Day 0, 1970-01-01, was a Thursday. -/
def isoWeekYear (days : Int) : Int := (civilFromDays (days - (days + 3) % 7 + 3)).1

/-- `n` in `w` decimal digits, zero-padded, as ASCII bytes. -/
def decimal (w n : Nat) : Bytes := (List.range w).reverse.map fun i => UInt8.ofNat (48 + n / 10 ^ i % 10)

/-- `iso8601(tp)`: `fmt::format("{:%G%m%dT%H%M%S}", fmt::gmtime(tp))`, whose first 15 bytes
the constructor copies. The year is the ISO week-based year; month and day are the
calendar's. -/
def iso8601 (tp : Int) : Bytes :=
  let s := toTimeT tp
  let days := s / 86400
  let secs := (s % 86400).toNat
  let date := civilFromDays days
  decimal 4 (isoWeekYear days).toNat ++ decimal 2 date.2.1 ++ decimal 2 date.2.2 ++ [84] ++
    decimal 2 (secs / 3600) ++ decimal 2 (secs / 60 % 60) ++ decimal 2 (secs % 60)

/-- `iso8601::operator<=>`: `memcmp` of the 15 bytes. -/
def cmp (a b : Bytes) : Ordering := memcmp 15 a b

/-- A decimal field: every byte an ASCII digit. -/
def readDecimal (bs : Bytes) : Option Nat :=
  bs.foldlM (fun acc b => if 48 ≤ b.toNat ∧ b.toNat ≤ 57 then some (acc * 10 + (b.toNat - 48)) else none) 0

/-- The number of days of month `m` of year `y`. -/
def lastDay (y : Int) (m : Nat) : Nat :=
  if m = 2 then (if y % 4 = 0 ∧ (y % 100 ≠ 0 ∨ y % 400 = 0) then 29 else 28)
  else if m = 4 ∨ m = 6 ∨ m = 9 ∨ m = 11 then 30 else 31

/-- `iso8601::toTP()`: `date::from_stream(is, "%Y%m%dT%H%M%S", tp)` into a `sys_time` of
microseconds. `%Y` takes four digits and the other fields two; a field that does not read or
a date or time out of range sets `failbit`, and `tp` keeps its initial value, the epoch. -/
def toTP (a : Bytes) : Int :=
  match readDecimal (a.take 4), readDecimal ((a.drop 4).take 2), readDecimal ((a.drop 6).take 2),
      (a[8]? : Option UInt8), readDecimal ((a.drop 9).take 2), readDecimal ((a.drop 11).take 2),
      readDecimal ((a.drop 13).take 2) with
  | some y, some m, some d, some 84, some h, some mi, some s =>
    if 1 ≤ m ∧ m ≤ 12 ∧ 1 ≤ d ∧ d ≤ lastDay y m ∧ h < 24 ∧ mi < 60 ∧ s < 60 then
      (daysFromCivil y m d * 86400 + h * 3600 + mi * 60 + s) * 1000000
    else 0
  | _, _, _, _, _, _, _ => 0

/-- 2024-12-30T00:00:00Z, a Monday, and 2025-01-05T00:00:00Z, the Sunday of the same ISO
week, as time points. -/
def lateDecember : Int := 1735516800 * 1000000000

def earlyJanuary : Int := 1736035200 * 1000000000

/-- The stamp does not keep time order: `%G` writes the week-based year 2025 for
2024-12-30, so its stamp sorts after that of 2025-01-05, six days later. -/
theorem iso8601_order_breaks_at_new_year :
    toTimeT lateDecember < toTimeT earlyJanuary ∧
      iso8601 lateDecember = [50, 48, 50, 53, 49, 50, 51, 48, 84, 48, 48, 48, 48, 48, 48] ∧
      iso8601 earlyJanuary = [50, 48, 50, 53, 48, 49, 48, 53, 84, 48, 48, 48, 48, 48, 48] ∧
      cmp (iso8601 lateDecember) (iso8601 earlyJanuary) = .gt := by
  decide

/-- `toTP` does not undo the stamp: it reads the week-based year 2025 of 2024-12-30 as a
calendar year, a year later than the instant encoded. -/
theorem toTP_year_off_at_new_year :
    toTP (iso8601 lateDecember) = 1767052800 * 1000000 ∧
      toTimeT lateDecember * 1000000 = 1735516800 * 1000000 := by
  decide

end SgKeyDist.Iso8601
