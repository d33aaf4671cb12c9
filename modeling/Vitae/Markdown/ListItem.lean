import Vitae.Markdown.Source
import Vitae.Text.Digit
import Vitae.Text.Basic

/-!
# List items

An item starts with a bullet or with a number and a point, and at least one space. It may be
indented by up to three spaces; an item that is indented further belongs to a list inside the item
before it.
-/

namespace Vitae.Markdown

open Text

namespace ListItem

/-- What follows a bullet at the start of a text. -/
def dropBullet? : Text → Option Text
  | '*' :: t | '+' :: t | '-' :: t => some t
  | _ => none

/-- What follows a number and a point at the start of a text. -/
def dropNumber? (t : Text) : Option Text :=
  let isDecimal (c : Char) : Bool := (digitValue? c).isSome
  match t.takeWhile isDecimal, t.dropWhile isDecimal with
  | _ :: _, '.' :: rest => some rest
  | _, _ => none

/-- The text of the item that a line starts, with the mark that `dropMark?` recognises. -/
def textAfter? (dropMark? : Text → Option Text) (least most : Nat) (line : Text) : Option Text :=
  let indent := (line.takeWhile (· = ' ')).length
  if indent < least ∨ most < indent then none
  else
    match dropMark? (line.drop indent) with
    | some (' ' :: rest) => some (rest.dropWhile (· = ' '))
    | _ => none

/-- The text of the item that a line starts. -/
def text? (line : Text) : Option Text :=
  let most := tabWidth - 1
  (textAfter? dropNumber? 0 most line).or (textAfter? dropBullet? 0 most line)

/-- Whether a line starts an item of a list inside an item. -/
def isNested (line : Text) : Bool :=
  let within (mark : Text → Option Text) : Bool :=
    (textAfter? mark tabWidth (2 * tabWidth - 1) line).isSome
  within dropNumber? || within dropBullet?

/-- Whether a text is indented by a level. -/
def isIndented (t : Text) : Bool :=
  (List.replicate tabWidth ' ').isPrefixOf t

/-- The items with one more line, where `items` are given backwards. -/
def addLine (items : List Text) (line : Text) : List Text :=
  match text? line, items with
  | some t, _ => t :: items
  | none, [] => [line]
  | none, last :: before =>
    if isNested line && !isIndented last then line :: items
    else (last ++ '\n' :: line) :: before

/-- The texts of the items in a block. -/
def texts (block : Text) : List Text :=
  ((lines block).foldl addLine []).reverse

/-- Whether a block starts with an item of a numbered list. -/
def startsNumbered (block : Text) : Bool :=
  (textAfter? dropNumber? 0 (tabWidth - 1) block).isSome

/-- Whether a block starts with an item of a bulleted list. -/
def startsBulleted (block : Text) : Bool :=
  (textAfter? dropBullet? 0 (tabWidth - 1) block).isSome

end ListItem

end Vitae.Markdown
