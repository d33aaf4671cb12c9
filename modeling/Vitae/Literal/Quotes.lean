import Vitae.Text.Basic

/-!
# Quotes and keywords

How a literal is taken apart: one pair of quotes around it can be removed, the words of a text are
cut at blanks outside quotes, and a keyword at its start is told from what follows.
-/

namespace Vitae.Literal

open Text

/-- A trimmed text without the pair of double quotes around it, if there is one. -/
def unwrap (t : Text) : Text :=
  let inner := trim t
  if 2 ≤ inner.length ∧ inner.head? = some '"' ∧ inner.getLast? = some '"' then
    (inner.drop 1).dropLast
  else inner

/-- What follows a keyword that starts the trimmed text as a whole word. -/
def afterKeyword? (keyword t : Text) : Option Text :=
  let inner := trim t
  if inner = keyword then some []
  else
    match dropHead? keyword inner with
    | some (c :: rest) => if isBlank c then some (trim (c :: rest)) else none
    | _ => none

/-! ### Words outside quotes -/

/-- How far the cutting has come: the pieces found, the piece being collected, and whether a quote
is open. -/
structure Cutting where
  pieces : List Text
  piece : Text
  quoted : Bool

namespace Cutting

/-- The pieces with the collected one added, unless it is empty. -/
def flushed (c : Cutting) : List Text :=
  if c.piece.isEmpty then c.pieces else c.pieces ++ [c.piece]

/-- One more character. A quote ends a piece and opens or closes the quotes; a blank outside
quotes ends a piece. -/
def step (c : Cutting) (x : Char) : Cutting :=
  if x = '"' then ⟨c.flushed, [], !c.quoted⟩
  else if isBlank x && !c.quoted then ⟨c.flushed, [], c.quoted⟩
  else { c with piece := c.piece ++ [x] }

end Cutting

/-- The words of a text, where everything inside a pair of double quotes is one word. Words are
trimmed, and blank ones are left out. -/
def quotedWords (t : Text) : List Text :=
  (((t.foldl Cutting.step ⟨[], [], false⟩).flushed).map trim).filter (!·.isEmpty)

end Vitae.Literal
