import Vitae.Text.Basic

/-!
# Trees of a rendered text

The content of an element is a row of glyphs: characters, pieces that later passes must not look
into, and elements. A pass over the content replaces what it recognises by one such piece, so the
next pass sees a single glyph there.
-/

namespace Vitae.Markdown

mutual

/-- A unit of the content of an element. -/
inductive Glyph where
  /-- A character that passes still look at. -/
  | char (c : Char)
  /-- Characters set aside in this pass: text again at its end. -/
  | aside (t : Text)
  /-- Characters that were escaped, and stay text for good. -/
  | escaped (t : Text)
  /-- Finished markup. -/
  | raw (html : Text)
  /-- An element that a pass found in a text, and that counts as a character of the text until the
  passes over it have ended. -/
  | held (e : Element)
  /-- An element. -/
  | element (e : Element)

/-- An element: its tag, its attributes, and its content. Passes do not look at the content of a
verbatim element. -/
inductive Element where
  | mk (tag : String) (attributes : List (String × Text)) (verbatim : Bool) (content : List Glyph)

end

/-- A row of glyphs. -/
abbrev Run := List Glyph

namespace Glyph

/-- The character that passes still look at here. -/
def char? : Glyph → Option Char
  | .char c => some c
  | _ => none

/-- Whether the glyph is the given character. -/
def isChar (c : Char) (g : Glyph) : Bool :=
  g.char? == some c

/-- Whether the glyph is a character that satisfies `p`. -/
def satisfies (p : Char → Bool) (g : Glyph) : Bool :=
  g.char?.any p

/-- Whether the glyph is an element. -/
def isElement : Glyph → Bool
  | .element _ => true
  | _ => false

end Glyph

namespace Run

/-- The glyphs of a text. -/
def ofText (t : Text) : Run :=
  t.map .char

/-- The characters of a run that consists of characters only. -/
def toText? (r : Run) : Option Text :=
  r.mapM Glyph.char?

/-- Whether a run has no glyph but blank characters. -/
def isBlank (r : Run) : Bool :=
  r.all (·.satisfies Text.isBlank)

/-- A run without the blank characters at either end. -/
def trim (r : Run) : Run :=
  let blank := Glyph.satisfies Text.isBlank
  ((r.dropWhile blank).reverse.dropWhile blank).reverse

/-- A run without the blank characters at its start. -/
def trimStart (r : Run) : Run :=
  r.dropWhile (·.satisfies Text.isBlank)

/-- The glyphs before the first element, and the elements, each with the glyphs between it and the
next one. -/
def segments : Run → Run × List (Element × Run)
  | [] => ([], [])
  | .element e :: r =>
    let (tail, rest) := segments r
    ([], (e, tail) :: rest)
  | g :: r =>
    let (lead, rest) := segments r
    (g :: lead, rest)

/-- The run with given segments. -/
def ofSegments (lead : Run) (rest : List (Element × Run)) : Run :=
  lead ++ rest.flatMap fun (e, tail) => .element e :: tail

end Run

namespace Element

/-- An element with characters and elements in it, and no attributes. -/
def plain (tag : String) (content : Run) : Element :=
  .mk tag [] false content

/-- An element whose content no pass looks at, and without attributes. -/
def verbatimText (tag : String) (t : Text) : Element :=
  .mk tag [] true (Run.ofText t)

/-- The tag of an element. -/
def tag : Element → String
  | .mk tag _ _ _ => tag

/-- Whether no pass looks at the content. -/
def isVerbatim : Element → Bool
  | .mk _ _ verbatim _ => verbatim

/-- The content of an element. -/
def content : Element → Run
  | .mk _ _ _ content => content

/-- The element with another content. -/
def withContent (e : Element) (content : Run) : Element :=
  match e with
  | .mk tag attributes verbatim _ => .mk tag attributes verbatim content

/-- The element with more content at its end. -/
def append (e : Element) (more : Run) : Element :=
  e.withContent (e.content ++ more)

/-- The last element in the content, with what precedes and what follows it. -/
def lastSplit? (e : Element) : Option (Run × Element × Run) :=
  let back := e.content.reverse
  match back.dropWhile (!·.isElement) with
  | .element last :: before =>
    some (before.reverse, last, (back.takeWhile (!·.isElement)).reverse)
  | _ => none

/-- The last element in the content. -/
def last? (e : Element) : Option Element :=
  e.lastSplit?.map (·.2.1)

/-- The element with its last element replaced. -/
def mapLast (e : Element) (f : Element → Element) : Element :=
  match e.lastSplit? with
  | none => e
  | some (before, last, tail) => e.withContent (before ++ .element (f last) :: tail)

/-- The tags of elements that stand on lines of their own. -/
def blockTags : List String := [
  "address", "article", "aside", "blockquote", "details", "div", "dl", "fieldset", "figcaption",
  "figure", "footer", "form", "h1", "h2", "h3", "h4", "h5", "h6", "header", "hgroup", "hr", "main",
  "menu", "nav", "ol", "p", "pre", "section", "table", "ul", "canvas", "colgroup", "dd", "body",
  "dt", "group", "html", "iframe", "li", "legend", "math", "map", "noscript", "output", "object",
  "option", "progress", "script", "style", "summary", "tbody", "td", "textarea", "tfoot", "th",
  "thead", "tr", "video", "center"]

/-- Whether elements with the tag stand on lines of their own. -/
def isBlockTag (tag : String) : Bool :=
  blockTags.contains tag

end Element

end Vitae.Markdown
