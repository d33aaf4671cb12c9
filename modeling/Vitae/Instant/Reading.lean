import Vitae.Instant.DateParts
import Vitae.Instant.Token
import Vitae.Instant.Words

/-!
# Reading an instant

People write dates in many ways. `Instant.read?` takes the tokens of a text from left to right;
each step looks at the tokens around it and adds to a draft. A token without a meaning fails the
whole reading. Fields that the text leaves out come from the start of 1970.
-/

namespace Vitae.Instant

open Text

/-- What a text has said about an instant so far. -/
structure Draft where
  parts : DateParts
  weekday : Option Nat
  hour : Option Nat
  minute : Option Nat
  second : Option Nat
  micro : Option Nat
  zone : Option Text
  offset : Option Int
  /-- The sign that follows is to be read the other way round: `BRST+3` is three hours behind. -/
  flipSign : Bool

namespace Draft

/-- The draft that says nothing. -/
def empty : Draft :=
  ⟨.empty, none, none, none, none, none, none, none, false⟩

/-- What a step needs: the draft after it, and how many tokens after the first it has used. -/
abbrev Step := Option (Draft × Nat)

/-! ### Times -/

/-- The hour on the clock of 24 hours. -/
def hourOfHalf (hour : Nat) (afternoon : Bool) : Nat :=
  if afternoon then if hour < 12 then hour + 12 else hour
  else if hour = 12 then 0 else hour

/-- Seconds and microseconds from a text such as `15` or `15.25`; digits beyond the sixth are
dropped. -/
def secondsOf? (t : Text) : Option (Nat × Nat) :=
  match pieces (· == '.') t with
  | [whole] => do return (← toNat? whole, 0)
  | [whole, fraction] => do
    return (← toNat? whole, ← toNat? ((fraction ++ List.replicate 6 '0').take 6))
  | _ => none

/-- The draft with its minute, and with its second if the minutes have a fraction. -/
def setMinutes (d : Draft) (n : Numeral) : Draft :=
  { d with minute := some n.whole, second := if n.hasFraction then some n.sixtieths else none }

/-- The draft with its second, from a text. -/
def setSeconds? (d : Draft) (t : Text) : Option Draft := do
  let (second, micro) ← secondsOf? t
  return { d with second := some second, micro := some micro }

/-- The draft with a number of hours, minutes or seconds; other units are ignored. -/
def setUnit? (d : Draft) (token : Text) (n : Numeral) (unit : Nat) : Option Draft :=
  match unit with
  | 0 =>
    some { d with
      hour := some n.whole, minute := if n.hasFraction then some n.sixtieths else d.minute }
  | 1 => some (d.setMinutes n)
  | 2 => d.setSeconds? token
  | _ => some d

/-- The unit of a number and how many tokens after the number tell it. A unit stands after the
number, perhaps with a gap. Else the number continues the unit before it, over a gap only at the
end of the text. -/
def unitAround? (before after : List Text) : Option (Nat × Nat) :=
  let next := after.head?.bind unit?
  let second := if after.head? == some [' '] then after[1]?.bind unit? else none
  let previous := before.head?.bind unit?
  let earlier :=
    if after.isEmpty && before.head? == some [' '] then before[1]?.bind unit? else none
  (next.map (·, 1)) <|> (second.map (·, 2)) <|> (previous.map (· + 1, 0)) <|>
    (earlier.map (· + 1, 0))

/-! ### Numbers -/

/-- A number followed by a mark between the members of a date, such as `01-Jan-20`. -/
def readMembers? (d : Draft) (token mark : Text) (after : List Text) : Step := do
  let parts ← d.parts.pushDigits? token
  match after with
  | second :: after =>
    if isFiller second then return ({ d with parts }, 1)
    else do
      let parts ←
        if second.all isDigitLike then parts.pushDigits? second
        else month? second >>= parts.pushMonth?
      match after with
      | mark' :: after =>
        if mark' = mark then do
          let third ← after.head?
          let parts ←
            match month? third with
            | some month => parts.pushMonth? month
            | none => parts.pushDigits? third
          return ({ d with parts }, 4)
        else return ({ d with parts }, 2)
      | [] => return ({ d with parts }, 2)
  | [] => return ({ d with parts }, 1)

/-- A number that its neighbours must explain: a time with colons, a member of a date, an hour with
its half of the day, or a bare year, month or day. -/
def readPlainNumber? (d : Draft) (token : Text) (n : Numeral) (after : List Text) : Step :=
  match after with
  | [':'] :: minutes :: after => do
    let d := { d with hour := some n.whole }.setMinutes (← Numeral.ofToken? minutes)
    match after with
    | [':'] :: seconds :: _ => return (← d.setSeconds? seconds, 4)
    | _ => return (d, 2)
  | [] => do return ({ d with parts := ← d.parts.pushNumeral? n }, 1)
  | next :: after =>
    if next = ['-'] ∨ next = ['/'] ∨ next = ['.'] then d.readMembers? token next after
    else if isFiller next then
      match after.head?.bind afternoon? with
      | some half => some ({ d with hour := some (hourOfHalf n.whole half) }, 2)
      | none => do return ({ d with parts := ← d.parts.pushNumeral? n }, 1)
    else
      match afternoon? next with
      | some half =>
        if n.whole < 24 then some ({ d with hour := some (hourOfHalf n.whole half) }, 1)
        else if d.parts.admitsDay n then do
          return ({ d with parts := ← d.parts.pushNumeral? n }, 0)
        else none
      | none =>
        if d.parts.admitsDay n then do return ({ d with parts := ← d.parts.pushNumeral? n }, 0)
        else none

/-- A number. Some tell by their length what they are: hours after a whole date, six digits for a
date or a time, eight and more for a date with its century. -/
def readNumber? (d : Draft) (before : List Text) (token : Text) (n : Numeral)
    (after : List Text) : Step :=
  let length := token.length
  let free := after.head?.all fun next => next ≠ [':'] && (unit? next).isNone
  if d.parts.values.length = 3 ∧ (length = 2 ∨ length = 4) ∧ d.hour = none ∧ free then do
    let hour ← toNat? (token.take 2)
    let minute ← if length = 4 then (toNat? (token.drop 2)).map some else some d.minute
    return ({ d with hour := some hour, minute }, 0)
  else if length = 6 ∨ (6 < length ∧ (token.findIdx? (· == '.')) = some 6) then
    if d.parts.values.isEmpty ∧ !token.contains '.' then do
      let parts ← d.parts.pushDigits? (token.take 2)
      let parts ← parts.pushDigits? ((token.drop 2).take 2)
      return ({ d with parts := ← parts.pushDigits? (token.drop 4) }, 0)
    else do
      let hour ← toNat? (token.take 2)
      let minute ← toNat? ((token.drop 2).take 2)
      return (← { d with hour := some hour, minute := some minute }.setSeconds? (token.drop 4), 0)
  else if length = 8 ∨ length = 12 ∨ length = 14 then do
    let parts ← d.parts.pushYearDigits? (token.take 4)
    let parts ← parts.pushDigits? ((token.drop 4).take 2)
    let d := { d with parts := ← parts.pushDigits? ((token.drop 6).take 2) }
    if length = 8 then return (d, 0)
    else do
      let hour ← toNat? ((token.drop 8).take 2)
      let minute ← toNat? ((token.drop 10).take 2)
      let d := { d with hour := some hour, minute := some minute }
      if length = 12 then return (d, 0)
      else return ({ d with second := some (← toNat? (token.drop 12)) }, 0)
  else
    match unitAround? before after with
    | some (unit, used) => do return (← d.setUnit? token n unit, used)
    | none => d.readPlainNumber? token n after

/-! ### Words and zones -/

/-- A year of two digits belongs to the hundred years around `thisYear`. -/
def fullYear (thisYear year : Nat) : Nat :=
  let y := thisYear / 100 * 100 + year
  if thisYear + 50 ≤ y then y - 100 else if y + 50 < thisYear then y + 100 else y

/-- The name of a month, with the members of a date after it: `Jan-01-99`, or `Jan of 01`. -/
def readMonth? (d : Draft) (thisYear month : Nat) (after : List Text) : Step := do
  let parts ← d.parts.pushMonth? month
  match after with
  | [] => return ({ d with parts }, 0)
  | mark :: rest =>
    if mark = ['-'] ∨ mark = ['/'] then do
      let parts ← parts.pushDigits? (← rest.head?)
      if rest[1]? = some mark then
        return ({ d with parts := ← parts.pushDigits? (← rest[2]?) }, 4)
      else return ({ d with parts }, 2)
    else
      match after with
      | [' '] :: pertain :: [' '] :: year :: _ =>
        if pertain.map Char.toLower = ['o', 'f'] then
          if year.all isDigitLike then do
            let year ← toNat? year
            let year := if year < 100 then fullYear thisYear year else year
            return ({ d with parts := ← parts.pushYearDigits? (ofNat year) }, 4)
          else return ({ d with parts }, 4)
        else return ({ d with parts }, 0)
      | _ => return ({ d with parts }, 0)

/-- Whether a token can name the time zone now: after the time, and only once. -/
def admitsZone (d : Draft) (token : Text) : Bool :=
  d.hour.isSome && d.zone.isNone && isZoneName token

/-- The name of a time zone. A sign right after it counts the other way round, and then a name of
universal time names nothing. -/
def readZone (d : Draft) (name : Text) (after : List Text) : Draft × Nat :=
  if after.head? = some ['+'] ∨ after.head? = some ['-'] then
    ({ d with
      zone := if isUniversalZone name then none else some name, offset := none,
      flipSign := true }, 0)
  else ({ d with zone := some name, offset := if name = ['z'] then some 0 else none }, 0)

/-- The hours and minutes after a sign, and how many tokens they take. -/
def offsetParts? (after : List Text) : Option (Nat × Nat × Nat) := do
  let token ← after.head?
  if token.length = 4 then
    return (← toNat? (token.take 2), ← toNat? (token.drop 2), 1)
  else if after[1]? = some [':'] then
    return (← toNat? token, ← toNat? (← after[2]?), 3)
  else if token.length ≤ 2 then
    return (← toNat? token, 0, 1)
  else none

/-- An offset from universal time, perhaps with the zone's name in parentheses after it. -/
def readOffset? (d : Draft) (sign : Text) (after : List Text) : Step := do
  let (hours, minutes, used) ← offsetParts? after
  let ahead := (sign = ['+']) != d.flipSign
  let seconds : Int := hours * 3600 + minutes * 60
  let d := { d with offset := some (if ahead then seconds else -seconds), flipSign := false }
  match after.drop used with
  | gap :: ['('] :: name :: [')'] :: _ =>
    if isFiller gap && 3 ≤ name.length && d.admitsZone name then
      return ({ d with zone := some name }, used + 4)
    else return (d, used)
  | _ => return (d, used)

/-! ### The whole text -/

/-- One step: the token `token`, with the tokens before it (the nearest first) and after it. -/
def read? (thisYear : Nat) (d : Draft) (before : List Text) (token : Text)
    (after : List Text) : Step :=
  match Numeral.ofToken? token with
  | some n => d.readNumber? before token n after
  | none =>
    match weekday? token, month? token, afternoon? token with
    | some weekday, _, _ => some ({ d with weekday := some weekday }, 0)
    | none, some month, _ => d.readMonth? thisYear month after
    | none, none, some half => do
      let hour ← d.hour
      if hour ≤ 12 then some ({ d with hour := some (hourOfHalf hour half) }, 0) else none
    | none, none, none =>
      if d.admitsZone token && d.offset.isNone then
        some (d.readZone token after)
      else if d.hour.isSome && (token = ['+'] || token = ['-']) then d.readOffset? token after
      else if isFiller token then some (d, 0)
      else none

/-- The draft after all tokens. -/
def readAll? (thisYear : Nat) (d : Draft) (before : List Text) : List Text → Option Draft
  | [] => some d
  | token :: after => do
    let (d, used) ← d.read? thisYear before token after
    readAll? thisYear d ((after.take used).reverse ++ token :: before) (after.drop used)
termination_by after => after.length
decreasing_by simp only [List.length_drop, List.length_cons]; omega

/-- The offset that the zone and the numbers after it make together. A name of universal time
overrides the numbers; an unknown name alone leaves the offset open. -/
def finalOffset (d : Draft) : Option Int :=
  if d.zone.any isUniversalZone then some 0 else d.offset

/-- Whether nothing at all has been said. -/
def isVacant (d : Draft) (named : DateParts.Named) : Bool :=
  named.year.isNone && named.month.isNone && named.day.isNone && d.weekday.isNone &&
    d.hour.isNone && d.minute.isNone && d.second.isNone && d.micro.isNone && d.zone.isNone &&
    d.offset.isNone

/-- The instant of a draft. A day of the week without a day of the month moves to the first such
day from there on. -/
def toInstant? (thisYear : Nat) (d : Draft) : Option Instant := do
  let named ← d.parts.resolve?
  if d.isVacant named then none
  else
    let year := named.year.map fun year =>
      if year < 100 && !d.parts.fullYear then fullYear thisYear year else year
    let day ← Day.ofFields? (year.getD 1970) (named.month.getD 1) (named.day.getD 1)
    let clock ← Clock.ofFields? (d.hour.getD 0) (d.minute.getD 0) (d.second.getD 0) (d.micro.getD 0)
    let day ←
      match d.weekday, named.day with
      | some weekday, none => Day.onWeekday? weekday 6 day
      | _, _ => some day
    return ⟨day, clock, d.finalOffset⟩

end Draft

/-- The instant that a text names. Years of two digits belong to the hundred years around
`thisYear`. -/
def read? (thisYear : Nat) (t : Text) : Option Instant := do
  let draft ← Draft.empty.readAll? thisYear [] (tokens t)
  draft.toInstant? thisYear

end Vitae.Instant
