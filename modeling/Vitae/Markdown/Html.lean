import Vitae.Markdown.Tree
import Vitae.Text.Lowercase

/-!
# Writing markup

An element is written with its attributes in the order of their names. In text and attributes the
characters of markup are written as entities; an ampersand that starts an entity already stays.
-/

namespace Vitae.Markdown

open Text

namespace Html

/-- Whether a text, which follows an ampersand, goes on as an entity: a name or a number, and a
semicolon. -/
def continuesEntity (t : Text) : Bool :=
  let closed (p : Char → Bool) (t : Text) : Bool :=
    !(t.takeWhile p).isEmpty && (t.dropWhile p).head? == some ';'
  match t with
  | '#' :: x :: t => closed Char.isDigit (x :: t) || ((x = 'x' || x = 'X') && closed isHexDigit t)
  | t => closed Char.isAlphanum t

/-- A text with the characters of markup as entities. -/
def escapeText : Text → Text
  | [] => []
  | '&' :: t => (if continuesEntity t then ['&'] else "&amp;".toList) ++ escapeText t
  | '<' :: t => "&lt;".toList ++ escapeText t
  | '>' :: t => "&gt;".toList ++ escapeText t
  | c :: t => c :: escapeText t

/-- The value of an attribute, where quotes are written as entities too. -/
def escapeAttribute (t : Text) : Text :=
  (escapeText t).flatMap fun c => if c = '"' then "&quot;".toList else [c]

/-- A piece of code, where every ampersand is written as an entity. -/
def escapeCode (t : Text) : Text :=
  t.flatMap fun c =>
    if c = '&' then "&amp;".toList
    else if c = '<' then "&lt;".toList
    else if c = '>' then "&gt;".toList
    else [c]

/-- The tags of elements that have no content and no closing tag. -/
def voidTags : List String := ["hr", "br", "img"]

/-- The attributes of an element in the order of their names. -/
def attributesText (attributes : List (String × Text)) : Text :=
  (attributes.mergeSort fun a b => a.1 ≤ b.1).flatMap fun (name, value) =>
    ' ' :: name.toList ++ '=' :: '"' :: escapeAttribute value ++ ['"']

mutual

/-- An element as markup. -/
def ofElement : Element → Text
  | .mk tag attributes _ content =>
    '<' :: tag.toList ++ attributesText attributes ++
      if voidTags.contains tag then " />".toList
      else '>' :: ofRun [] content ++ '<' :: '/' :: tag.toList ++ ['>']

/-- A run as markup, after some text that is not written yet and is given backwards. -/
def ofRun (pending : Text) : List Glyph → Text
  | [] => escapeText pending.reverse
  | .char c :: r => ofRun (c :: pending) r
  | .aside t :: r => ofRun (t.reverse ++ pending) r
  | .escaped t :: r => ofRun (t.reverse ++ pending) r
  | .raw html :: r => escapeText pending.reverse ++ html ++ ofRun [] r
  | .held e :: r => escapeText pending.reverse ++ ofElement e ++ ofRun [] r
  | .element e :: r => escapeText pending.reverse ++ ofElement e ++ ofRun [] r

end

end Html

end Vitae.Markdown
