import Vitae.Text.Basic

/-!
# Instants

An instant is a day of the Gregorian calendar, a time of day to the microsecond, and the offset
from universal time if one is known. The fields of a day and of a time are always in range, since
the structures carry the proof.
-/

namespace Vitae

/-! ### The calendar -/

/-- Leap years: every fourth year, of the centuries only every fourth. -/
def isLeapYear (year : Nat) : Bool :=
  year % 4 == 0 && (year % 100 != 0 || year % 400 == 0)

/-- The number of days of a month; no month outside 1 to 12 has any. -/
def daysInMonth (year month : Nat) : Nat :=
  match month with
  | 2 => if isLeapYear year then 29 else 28
  | 4 | 6 | 9 | 11 => 30
  | 1 | 3 | 5 | 7 | 8 | 10 | 12 => 31
  | _ => 0

/-- A day of the calendar, in the years 1 to 9999. -/
structure Day where
  year : Nat
  month : Nat
  day : Nat
  year_mem : 1 ≤ year ∧ year ≤ 9999
  month_mem : 1 ≤ month ∧ month ≤ 12
  day_mem : 1 ≤ day ∧ day ≤ daysInMonth year month
  deriving DecidableEq

namespace Day

/-- The day with the given year, month and day of the month, if there is one. -/
def ofFields? (year month day : Nat) : Option Day :=
  if h : (1 ≤ year ∧ year ≤ 9999) ∧ (1 ≤ month ∧ month ≤ 12) ∧
      (1 ≤ day ∧ day ≤ daysInMonth year month) then
    some ⟨year, month, day, h.1, h.2.1, h.2.2⟩
  else none

/-- The number of days before the first of March of `year`, counted from the first of March of
the year 0. Years that begin in March end with their leap day. -/
def daysBeforeMarch (year : Nat) : Nat :=
  365 * year + year / 4 - year / 100 + year / 400

/-- The number of days from the first of March of the year 0. -/
def serial (d : Day) : Nat :=
  let (y, m) := if d.month ≤ 2 then (d.year - 1, d.month + 9) else (d.year, d.month - 3)
  daysBeforeMarch y + (153 * m + 2) / 5 + (d.day - 1)

/-- The day of the week, with 0 for Monday: the first of March of the year 0 was a Wednesday. -/
def weekday (d : Day) : Nat :=
  (d.serial + 2) % 7

/-- The day after, unless it is the last day of the year 9999. -/
def next? (d : Day) : Option Day :=
  ofFields? d.year d.month (d.day + 1) <|> ofFields? d.year (d.month + 1) 1 <|>
    ofFields? (d.year + 1) 1 1

/-- The first of `fuel + 1` days from `d` on that is the given day of the week. -/
def onWeekday? (weekday : Nat) : Nat → Day → Option Day
  | 0, d => if d.weekday == weekday then some d else none
  | fuel + 1, d =>
    if d.weekday == weekday then some d else d.next?.bind (onWeekday? weekday fuel)

end Day

/-! ### Times and instants -/

/-- A time of day to the microsecond. -/
structure Clock where
  hour : Nat
  minute : Nat
  second : Nat
  micro : Nat
  hour_lt : hour < 24
  minute_lt : minute < 60
  second_lt : second < 60
  micro_lt : micro < 1000000
  deriving DecidableEq

namespace Clock

/-- The time with the given fields, if they are in range. -/
def ofFields? (hour minute second micro : Nat) : Option Clock :=
  if h : hour < 24 ∧ minute < 60 ∧ second < 60 ∧ micro < 1000000 then
    some ⟨hour, minute, second, micro, h.1, h.2.1, h.2.2.1, h.2.2.2⟩
  else none

/-- The start of the day. -/
def midnight : Clock :=
  ⟨0, 0, 0, 0, by decide, by decide, by decide, by decide⟩

end Clock

/-- A day and a time, with the offset from universal time in seconds if one is known. -/
structure Instant where
  day : Day
  clock : Clock
  offset : Option Int
  deriving DecidableEq

end Vitae
