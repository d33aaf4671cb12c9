import Vitae.Proofs.Instant.Written

/-!
# Instants in digits

One form of an instant leaves a reader of dates no choice: year, month and day in digits with
hyphens between, and behind them, if anything, the time in six digits, a fraction of a second and an
offset (`Instant.Form`). Any reader of dates is expected to read it (`Instant.ReadsForms`): the
fields are those that the digits say, and what the text leaves out comes from midnight, with no
offset. The form of a document is of this kind (`Instant.form_literalText`).
-/

namespace Vitae.Instant

open Text

/-- Year, month and day. -/
inductive DayForm : Text → Day → Prop
  | mk {y m d : Text} {date : Day} (year : Digits 4 date.year y) (month : Digits 2 date.month m)
    (day : Digits 2 date.day d) : DayForm (y ++ '-' :: (m ++ '-' :: d)) date

/-- The fraction of a second in microseconds: nothing, or up to six digits behind a point. -/
inductive FractionForm : Text → Nat → Prop
  | nil : FractionForm [] 0
  | point {f : Text} {zeros micro : Nat} (ne_nil : f ≠ [])
    (value : Digits 6 micro (f ++ List.replicate zeros '0')) : FractionForm ('.' :: f) micro

/-- Hour, minute and second with nothing between, and the fraction. -/
inductive ClockForm : Text → Clock → Prop
  | mk {h m s f : Text} {clock : Clock} (hour : Digits 2 clock.hour h)
    (minute : Digits 2 clock.minute m) (second : Digits 2 clock.second s)
    (fraction : FractionForm f clock.micro) : ClockForm (h ++ (m ++ (s ++ f))) clock

/-- No offset, or a sign with the hours and minutes. -/
inductive OffsetForm : Text → Option Int → Prop
  | nil : OffsetForm [] none
  | ahead {h m : Text} {hours minutes : Nat} (hour : Digits 2 hours h) (minute : Digits 2 minutes m)
    (hour_lt : hours < 24) (minute_lt : minutes < 60) :
    OffsetForm ('+' :: (h ++ m)) (some (hours * 3600 + minutes * 60))
  | behind {h m : Text} {hours minutes : Nat} (hour : Digits 2 hours h)
    (minute : Digits 2 minutes m) (hour_lt : hours < 24) (minute_lt : minutes < 60) :
    OffsetForm ('-' :: (h ++ m)) (some (-(hours * 3600 + minutes * 60)))

/-- A text that says an instant in digits. -/
inductive Form : Text → Instant → Prop
  | day {t : Text} {day : Day} (date : DayForm t day) : Form t ⟨day, Clock.midnight, none⟩
  | moment {t u v : Text} {day : Day} {clock : Clock} {offset : Option Int} (date : DayForm t day)
    (time : ClockForm u clock) (zone : OffsetForm v offset) :
    Form (t ++ ' ' :: (u ++ v)) ⟨day, clock, offset⟩

/-- A reader of dates that reads instants in digits as what the digits say. -/
def ReadsForms (readInstant : Text → Option Instant) : Prop :=
  ∀ {t i}, Form t i → readInstant t = some i

/-! ### The form of a document -/

theorem daysInMonth_le (year month : Nat) : daysInMonth year month ≤ 31 := by
  unfold daysInMonth
  grind

theorem day_lt (d : Day) : d.year < 10 ^ 4 ∧ d.month < 10 ^ 2 ∧ d.day < 10 ^ 2 := by
  have hyear := d.year_mem
  have hmonth := d.month_mem
  have hday := d.day_mem.2.trans (daysInMonth_le d.year d.month)
  omega

theorem clock_lt (c : Clock) : c.hour < 10 ^ 2 ∧ c.minute < 10 ^ 2 ∧ c.second < 10 ^ 2 := by
  have hhour := c.hour_lt
  have hminute := c.minute_lt
  have hsecond := c.second_lt
  omega

theorem dayForm_dayText (d : Day) : DayForm (dayText d) d := by
  obtain ⟨hyear, hmonth, hday⟩ := day_lt d
  have hform : dayText d = ofNatPadded 4 d.year ++ '-' :: (ofNatPadded 2 d.month ++
      '-' :: ofNatPadded 2 d.day) := by
    rw [dayText, List.append_assoc, List.cons_append]
  rw [hform]
  exact .mk (digits_ofNatPadded (by decide) hyear) (digits_ofNatPadded (by decide) hmonth)
    (digits_ofNatPadded (by decide) hday)

theorem fractionForm_fractionText (c : Clock) : FractionForm (fractionText c) c.micro := by
  unfold fractionText
  split_ifs with hmicro
  · rw [hmicro]
    exact .nil
  · have hvalue : Digits 6 c.micro (ofNatPadded 6 c.micro ++ List.replicate 0 '0') := by
      rw [List.replicate_zero, List.append_nil]
      exact digits_ofNatPadded (by decide) c.micro_lt
    exact .point (ofNatPadded_ne_nil 6 c.micro) hvalue

theorem clockForm_clockText (c : Clock) : ClockForm (clockText [] c ++ fractionText c) c := by
  obtain ⟨hhour, hminute, hsecond⟩ := clock_lt c
  simp only [clockText, List.append_nil, List.append_assoc]
  exact .mk (digits_ofNatPadded (by decide) hhour) (digits_ofNatPadded (by decide) hminute)
    (digits_ofNatPadded (by decide) hsecond) (fractionForm_fractionText c)

/-- An offset of whole minutes has no seconds, and below a day two digits are enough for its
hours. -/
theorem offsetForm_offsetText {s : Int} (hminute : 60 ∣ s) (hnarrow : s.natAbs < 86400) :
    OffsetForm (offsetText [] s ++ offsetSecondsText [] s) (some s) := by
  have hseconds : offsetSecondsText [] s = [] := if_pos (by omega)
  have hhours : s.natAbs / 60 / 60 % 100 < 24 := by omega
  have hminutes : s.natAbs / 60 % 60 < 60 := by omega
  have hour : Digits 2 _ (ofNatPadded 2 (s.natAbs / 60 / 60 % 100)) :=
    digits_ofNatPadded (by decide) (by omega)
  have minute : Digits 2 _ (ofNatPadded 2 (s.natAbs / 60 % 60)) :=
    digits_ofNatPadded (by decide) (by omega)
  rw [hseconds, List.append_nil, offsetText, List.append_nil]
  have htotal : s.natAbs = s.natAbs / 60 / 60 % 100 * 3600 + s.natAbs / 60 % 60 * 60 := by omega
  generalize s.natAbs / 60 / 60 % 100 = hours at *
  generalize s.natAbs / 60 % 60 = minutes at *
  split_ifs with hneg
  · have hvalue : s = -(hours * 3600 + minutes * 60 : Int) := by omega
    exact hvalue ▸ .behind hour minute hhours hminutes
  · have hvalue : s = (hours * 3600 + minutes * 60 : Int) := by omega
    exact hvalue ▸ .ahead hour minute hhours hminutes

/-- **An instant with an offset of whole minutes, or with none, stands in a document in digits.** -/
theorem form_literalText {i : Instant} (h : ∀ s ∈ i.offset, 60 ∣ s ∧ s.natAbs < 86400) :
    Form i.literalText i := by
  obtain ⟨day, clock, offset⟩ := i
  unfold literalText
  split_ifs with hday
  · obtain ⟨rfl, rfl⟩ : clock = Clock.midnight ∧ offset = none := hday
    exact .day (dayForm_dayText day)
  · rw [List.append_assoc, List.append_assoc, List.cons_append, ← List.append_assoc (clockText _ _)]
    refine .moment (dayForm_dayText day) (clockForm_clockText clock) ?_
    cases offset with
    | none => exact .nil
    | some s => exact offsetForm_offsetText (h s rfl).1 (h s rfl).2

end Vitae.Instant
