import Vitae.Instant.Basic

/-!
# Written instants

An instant has three written forms. `isoText` is the form of the data: date and time with a `T`
between, the fraction only if there is one, and `Z` for an offset of zero. `spacedText` is the form
inside a sentence, and `literalText` the form of a document, which holds no colon because an
identifier ends at the first one.
-/

namespace Vitae.Instant

open Text

/-- Year, month and day with hyphens between. -/
def dayText (d : Day) : Text :=
  ofNatPadded 4 d.year ++ '-' :: ofNatPadded 2 d.month ++ '-' :: ofNatPadded 2 d.day

/-- Hour, minute and second with `sep` between. -/
def clockText (sep : Text) (c : Clock) : Text :=
  ofNatPadded 2 c.hour ++ sep ++ ofNatPadded 2 c.minute ++ sep ++ ofNatPadded 2 c.second

/-- The fraction of a second in six digits after a point, or nothing if it is zero. -/
def fractionText (c : Clock) : Text :=
  if c.micro = 0 then [] else '.' :: ofNatPadded 6 c.micro

/-- The sign, hours and minutes of an offset with `sep` between. The hours have two digits. -/
def offsetText (sep : Text) (seconds : Int) : Text :=
  let minutes := seconds.natAbs / 60
  (if seconds < 0 then '-' else '+') ::
    (ofNatPadded 2 (minutes / 60 % 100) ++ sep ++ ofNatPadded 2 (minutes % 60))

/-- The seconds that an offset has beyond its minutes, after `sep`, or nothing. -/
def offsetSecondsText (sep : Text) (seconds : Int) : Text :=
  if seconds.natAbs % 60 = 0 then [] else sep ++ ofNatPadded 2 (seconds.natAbs % 60)

/-- The form of the data: `2020-01-01T10:30:00.250000+01:00`, with `Z` for an offset of zero. -/
def isoText (i : Instant) : Text :=
  dayText i.day ++ 'T' :: clockText [':'] i.clock ++ fractionText i.clock ++
    match i.offset with
    | none => []
    | some 0 => ['Z']
    | some s => offsetText [':'] s

/-- The form inside a sentence: `2020-01-01 10:30:00.250000+01:00`. -/
def spacedText (i : Instant) : Text :=
  dayText i.day ++ ' ' :: clockText [':'] i.clock ++ fractionText i.clock ++
    match i.offset with
    | none => []
    | some s => offsetText [':'] s ++ offsetSecondsText [':'] s

/-- The form of a document: `2020-01-01` for midnight without offset, else
`2020-01-01 103000.250000+0100`. -/
def literalText (i : Instant) : Text :=
  if i.clock = Clock.midnight ∧ i.offset = none then dayText i.day
  else
    dayText i.day ++ ' ' :: clockText [] i.clock ++ fractionText i.clock ++
      match i.offset with
      | none => []
      | some s => offsetText [] s ++ offsetSecondsText [] s

end Vitae.Instant
