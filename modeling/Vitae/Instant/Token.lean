import Vitae.Text.Digit
import Vitae.Text.Letter

/-!
# Tokens of a date

A date is read as a row of tokens: words, numbers, gaps and single marks. Points and commas may
stand inside a word or a number; whether they separate it is known only at its end, so `10.5` stays
whole while `10.5.2020` and `a.m.` fall apart at every point. A gap is a single space, whatever
blank it was, and null characters are skipped.
-/

namespace Vitae.Instant

open Text

/-- What an unfinished token is made of so far. -/
inductive TokenShape
  | letters
  | digits
  | dottedLetters
  | dottedDigits
  deriving DecidableEq

/-- A token that may still grow. `lettersSeen` tells that a letter of it has been looked past. -/
structure PendingToken where
  shape : TokenShape
  lettersSeen : Bool
  token : Text

namespace PendingToken

/-- The token that starts with a character, if it can grow. -/
def start? (c : Char) : Option PendingToken :=
  if isLetter c then some ⟨.letters, false, [c]⟩
  else if isDigitLike c then some ⟨.digits, false, [c]⟩
  else none

/-- Whether looking at one more character means that a letter has been looked past. -/
def looksPastLetter (p : PendingToken) : Bool :=
  p.lettersSeen || p.shape == .letters || p.shape == .dottedLetters

/-- The token with one more character, if the character belongs to it. -/
def extend? (p : PendingToken) (c : Char) : Option PendingToken :=
  let grown (shape : TokenShape) : PendingToken := ⟨shape, p.looksPastLetter, p.token ++ [c]⟩
  let afterPoint := p.token.getLast? == some '.'
  match p.shape with
  | .letters =>
    if isLetter c then some (grown .letters)
    else if c == '.' then some (grown .dottedLetters)
    else none
  | .digits =>
    if isDigitLike c then some (grown .digits)
    else if c == '.' || (c == ',' && 2 ≤ p.token.length) then some (grown .dottedDigits)
    else none
  | .dottedLetters =>
    if c == '.' || isLetter c then some (grown .dottedLetters)
    else if isDigitLike c && afterPoint then some (grown .dottedDigits)
    else none
  | .dottedDigits =>
    if c == '.' || isDigitLike c then some (grown .dottedDigits)
    else if isLetter c && afterPoint then some (grown .dottedLetters)
    else none

end PendingToken

/-- Whether the character separates the parts of a token that falls apart. -/
def isPointOrComma (c : Char) : Bool :=
  c == '.' || c == ','

/-- A text cut around every point and comma, with these as pieces of their own and no empty
piece. -/
def splitAtPoints : Text → List Text
  | [] => []
  | c :: t =>
    if isPointOrComma c then [c] :: splitAtPoints t
    else
      match splitAtPoints t with
      | [] => [[c]]
      | p :: ps => if p.any isPointOrComma then [c] :: p :: ps else (c :: p) :: ps

/-- The tokens that a finished token stands for: its parts, if a letter has been looked past, if
it has more than one point or if it ends in one. A comma in a number that stays whole is its
decimal point. -/
def PendingToken.finish (p : PendingToken) (lettersSeen : Bool) : List Text :=
  let dotted := p.shape == .dottedLetters || p.shape == .dottedDigits
  if dotted && (lettersSeen || 1 < p.token.count '.' || p.token.getLast?.any isPointOrComma) then
    splitAtPoints p.token
  else if p.shape == .dottedDigits && !p.token.contains '.' then
    [p.token.map fun c => if c == ',' then '.' else c]
  else [p.token]

/-- The tokens of a text that continues a pending token. -/
def tokensFrom : Option PendingToken → Text → List Text
  | none, [] => []
  | some p, [] => p.finish p.lettersSeen
  | pending, c :: t =>
    match pending.bind (·.extend? c) with
    | some p => tokensFrom (some p) t
    | none =>
      let finished := (pending.map fun p => p.finish p.looksPastLetter).getD []
      match PendingToken.start? c with
      | some p => finished ++ tokensFrom (some p) t
      | none => finished ++ [if isBlank c then ' ' else c] :: tokensFrom none t

/-- The tokens of a text. -/
def tokens (t : Text) : List Text :=
  tokensFrom none (t.filter (· ≠ '\x00'))

end Vitae.Instant
