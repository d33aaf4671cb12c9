import Vitae.Text.Digit
import Vitae.Instant.Basic

/-!
# Which number is the year

The numbers of a date come in any order. Some are marked: a month by its name, a year by having
more than two digits. `DateParts.resolve?` finds what the others must be: a number above 31 is a
year, one above 12 is no month, and where nothing decides the order is month, day, year, with the
day before a month that is named.
-/

namespace Vitae.Instant

open Text

/-- A number as it stands in a date: its whole part and the digits of its fraction. -/
structure Numeral where
  whole : Nat
  fraction : List Nat

namespace Numeral

/-- The number that a token stands for: decimal digits, perhaps a point and more of them. -/
def ofToken? (token : Text) : Option Numeral :=
  match pieces (· == '.') token with
  | [whole] => do return ⟨← toNat? whole, []⟩
  | [whole, fraction] => do
    let _ ← toNat? fraction
    return ⟨← toNat? whole, ← fraction.mapM digitValue?⟩
  | _ => none

/-- Whether the number has a fraction other than zero. -/
def hasFraction (n : Numeral) : Bool :=
  n.fraction.any (· ≠ 0)

/-- The whole part of sixty times the fraction. -/
def sixtieths (n : Numeral) : Nat :=
  60 * n.fraction.foldl (10 * · + ·) 0 / Nat.pow 10 n.fraction.length

/-- Whether the number is at most `bound`. -/
def atMost (n : Numeral) (bound : Nat) : Bool :=
  n.whole < bound || (n.whole == bound && !n.hasFraction)

end Numeral

/-- The numbers of a date in the order read, with the positions of those known to be the year and
the month. `fullYear` tells that some year was written with its century. -/
structure DateParts where
  values : List Nat
  yearAt : Option Nat
  monthAt : Option Nat
  fullYear : Bool

namespace DateParts

/-- No number yet. -/
def empty : DateParts :=
  ⟨[], none, none, false⟩

/-- The same numbers, with some year written with its century. -/
def withFullYear (p : DateParts) : DateParts :=
  { p with fullYear := true }

/-- One more number, of which nothing is known. -/
def push (p : DateParts) (value : Nat) : DateParts :=
  { p with values := p.values ++ [value] }

/-- One more number that is the year, unless there is one already. -/
def pushYear? (p : DateParts) (value : Nat) : Option DateParts :=
  if p.yearAt.isSome then none
  else some { p with values := p.values ++ [value], yearAt := some p.values.length }

/-- One more number that is the month, unless there is one already. -/
def pushMonth? (p : DateParts) (value : Nat) : Option DateParts :=
  if p.monthAt.isSome then none
  else some { p with values := p.values ++ [value], monthAt := some p.values.length }

/-- One more number, read from its digits. Three digits or more make it a year with its
century. -/
def pushDigits? (p : DateParts) (digits : Text) : Option DateParts := do
  let value ← toNat? digits
  if 2 < digits.length then p.withFullYear.pushYear? value else return p.push value

/-- One more number that is the year, read from its digits. -/
def pushYearDigits? (p : DateParts) (digits : Text) : Option DateParts := do
  let value ← toNat? digits
  if 2 < digits.length then p.withFullYear.pushYear? value else p.pushYear? value

/-- One more number, cut to its whole part. Above 100 it is a year with its century. -/
def pushNumeral? (p : DateParts) (n : Numeral) : Option DateParts :=
  if n.atMost 100 then some (p.push n.whole)
  else p.withFullYear.pushYear? n.whole

/-- Whether a number could be the day of the month, as far as the month and the year are known. A
month without a year may have its leap day. -/
def admitsDay (p : DateParts) (n : Numeral) : Bool :=
  let last :=
    match p.monthAt.bind (p.values[·]?) with
    | none => 31
    | some month => daysInMonth ((p.yearAt.bind (p.values[·]?)).getD 2000) month
  1 ≤ n.whole && n.atMost last

/-- Year, month and day as far as the date names them. -/
structure Named where
  year : Option Nat
  month : Option Nat
  day : Option Nat

/-- What the numbers mean when none of them, or only the month, is known. -/
def resolveUnmarked? (p : DateParts) : Option Named :=
  match p.values, p.monthAt with
  | [], _ => some ⟨none, none, none⟩
  | [a], none => if 31 < a then some ⟨some a, none, none⟩ else some ⟨none, none, some a⟩
  | [a], some _ => some ⟨none, some a, none⟩
  | [a, b], none =>
    if 31 < a then some ⟨some a, some b, none⟩
    else if 31 < b then some ⟨some b, some a, none⟩
    else some ⟨none, some a, some b⟩
  | [a, b], some at' =>
    let (month, other) := if at' = 0 then (a, b) else (b, a)
    if 31 < other then some ⟨some other, some month, none⟩
    else some ⟨none, some month, some other⟩
  | [a, b, c], none =>
    if 31 < a || p.yearAt == some 0 then some ⟨some a, some b, some c⟩
    else if 12 < a then some ⟨some c, some b, some a⟩
    else some ⟨some c, some a, some b⟩
  | [a, b, c], some 0 =>
    if 31 < b then some ⟨some b, some a, some c⟩ else some ⟨some c, some a, some b⟩
  | [a, b, c], some 1 =>
    if 31 < a then some ⟨some a, some b, some c⟩ else some ⟨some c, some b, some a⟩
  | [a, b, c], some _ =>
    if 31 < b then some ⟨some b, some c, some a⟩ else some ⟨some a, some c, some b⟩
  | _, _ => none

/-- What the numbers mean; more than three have no meaning. When all but one of three are known,
the other is the day. -/
def resolve? (p : DateParts) : Option Named :=
  let known := p.yearAt.toList ++ p.monthAt.toList
  let rest := (List.range p.values.length).filter (!known.contains ·)
  if (rest.isEmpty && !known.isEmpty) || (p.values.length = 3 && known.length = 2) then
    some {
      year := p.yearAt.bind (p.values[·]?)
      month := p.monthAt.bind (p.values[·]?)
      day := rest.head?.bind (p.values[·]?) }
  else p.resolveUnmarked?

end DateParts

end Vitae.Instant
