import Vitae.Markdown.EntityName
import Vitae.Markdown.Html
import Vitae.Markdown.Source

/-!
# Patterns in running text

A pattern looks at the text from a position on, and at the glyph before the position. It finds a
piece there, passes over some glyphs that must not be looked at again, or does neither. This module
holds the patterns whose inside is no running text: code spans, escapes, addresses, line breaks,
markup, entities, and marks that stand alone.
-/

namespace Vitae.Markdown

open Text

/-- What a pattern makes of the text at a position. -/
inductive Finding where
  /-- Nothing. -/
  | nothing
  /-- A number of glyphs that are left as they are. -/
  | passed (count : Nat)
  /-- A glyph in place of the first glyphs, and the text after them. -/
  | found (g : Glyph) (rest : Run)

/-- A pattern, given the glyph before a position and the text from there on. -/
abbrev Pattern := Option Glyph → Run → Finding

namespace Run

/-- The shortest start of a run, of one glyph or more, for which `p` finds something. `p` is given
the last glyph of the start and the run after it. -/
def shortest? {α : Type} (p : Glyph → Run → Option α) : Run → Option (Run × α)
  | [] => none
  | g :: r =>
    match p g r with
    | some a => some ([g], a)
    | none => (shortest? p r).map fun (inner, a) => (g :: inner, a)

/-- What follows `n` characters `c` at the start of a run. -/
def dropChars? (c : Char) : Nat → Run → Option Run
  | 0, r => some r
  | n + 1, g :: r => if g.isChar c then dropChars? c n r else none
  | _ + 1, [] => none

/-- The characters at the start of a run up to the first other glyph. -/
def leadingText (r : Run) : Text :=
  (r.takeWhile fun g => g.char?.isSome).filterMap Glyph.char?

end Run

mutual

/-- The characters in a glyph. -/
def Glyph.plainText : Glyph → Text
  | .char c => [c]
  | .aside t => t
  | .escaped t => t
  | .raw html => html
  | .held e => e.plainText
  | .element e => e.plainText

/-- The characters in an element. -/
def Element.plainText : Element → Text
  | .mk _ _ _ content => plainTextOf content

/-- The characters in glyphs. -/
def plainTextOf : List Glyph → Text
  | [] => []
  | g :: r => g.plainText ++ plainTextOf r

end

namespace Pattern

/-! ### Code spans and escapes -/

/-- The characters that a backslash makes stand for themselves. -/
def escapable : Text :=
  "\\`*_\x7b\x7d[]()>#+-.!|".toList

/-- The code span that a number of backticks opens, and the text after it. The same number closes
it. -/
def codeFrom? (r : Run) : Nat → Option (Run × Run)
  | 0 => none
  | n + 1 =>
    let close (last : Glyph) (r : Run) : Option Run :=
      let ticks := (r.takeWhile (·.isChar '`')).length
      if last.isChar '`' ∨ ticks ≠ n + 1 then none else some (r.drop ticks)
    (Run.shortest? close (r.drop (n + 1))).or (codeFrom? r n)

/-- Code as the content of an element. Nothing in it is escaped, so the mark of a character that was
escaped before the code was found stays as it is. -/
def codeContent (inner : Run) : Run :=
  (Run.trim inner).flatMap fun g =>
    match g with
    | .char c => Run.ofText (Html.escapeCode [c])
    | .escaped t => Run.ofText (t.flatMap fun c => mark c.toNat)
    | g => [g]

/-- A code span, or an even number of backslashes before a backtick, each two of which stand for
one. -/
def code : Pattern := fun previous r =>
  if previous.any (·.isChar '\\') then .nothing
  else
    let slashes := (r.takeWhile (·.isChar '\\')).length
    let rest := r.drop slashes
    let ticks := (rest.takeWhile (·.isChar '`')).length
    if 0 < slashes then
      if slashes % 2 = 0 ∧ 0 < ticks then
        .found (.escaped (List.replicate (slashes / 2) '\\')) rest
      else .nothing
    else
      match codeFrom? r ticks with
      | some (inner, rest) => .found (.held (.mk "code" [] true (codeContent inner))) rest
      | none => .nothing

/-- A backslash and the character it escapes. Before any other glyph the backslash stays. -/
def escape : Pattern := fun _ r =>
  match r with
  | .char '\\' :: g :: rest =>
    match g.char? with
    | some c => if escapable.contains c then .found (.escaped [c]) rest else .passed 2
    | none => .passed 2
  | _ => .nothing

/-! ### Addresses -/

/-- The text between angle brackets at the start of a run, and what follows them. -/
def angled? (r : Run) : Option (Run × Run) :=
  (Run.dropChars? '<' 1 r).bind fun r =>
    let isInner (g : Glyph) : Bool := !g.isChar '<' && !g.isChar '>'
    (Run.dropChars? '>' 1 (r.dropWhile isInner)).map (r.takeWhile isInner, ·)

/-- The starts of addresses that are links. -/
def schemes : List String := ["ftp://", "ftps://", "http://", "https://"]

/-- An address between angle brackets. -/
def autolink : Pattern := fun _ r =>
  match angled? r with
  | some (inner, rest) =>
    let start := inner.leadingText.map Char.toLower
    if schemes.any fun s => s.toList.isPrefixOf start then
      .found (.held (.mk "a" [("href", plainTextOf inner)] true inner)) rest
    else .nothing
  | none => .nothing

/-- Whether the text between angle brackets is the address of a mailbox. -/
def isMailbox (inner : Run) : Bool :=
  let domain := (inner.reverse.takeWhile (!·.isChar '@')).reverse
  let user := inner.take (inner.length - domain.length - 1)
  domain.length < inner.length && !domain.isEmpty && !user.isEmpty &&
    !domain.any (·.isChar ' ') && !user.any fun g => g.isChar ' ' || g.isChar '!'

/-- The address of a mailbox between angle brackets, written in entities. -/
def automail : Pattern := fun _ r =>
  match angled? r with
  | some (inner, rest) =>
    if isMailbox inner then
      let scheme := "mailto:".toList
      let address := plainTextOf inner
      let address := (dropHead? scheme address).getD address
      let target := (scheme ++ address).flatMap fun c => "&#".toList ++ ofNat c.toNat ++ [';']
      .found (.held (.mk "a" [("href", target)] true (Run.ofText (address.flatMap entityText)))) rest
    else .nothing
  | none => .nothing

/-! ### Line breaks, markup and entities -/

/-- Two spaces at the end of a line. -/
def lineBreak : Pattern := fun _ r =>
  match r with
  | .char ' ' :: .char ' ' :: .char '\n' :: rest => .found (.held (.plain "br" [])) rest
  | _ => .nothing

/-- The end of the comment whose inside starts a run, before another comment starts. -/
def commentEnd? : Run → Option Run
  | [] => none
  | g :: r =>
    let starts (t : String) : Bool := t.toList.isPrefixOf (Run.leadingText ((g :: r).take t.length))
    if starts "<!--" then none
    else if starts "-->" then some (r.drop 2)
    else commentEnd? r

/-- What follows the tag at the start of a run. -/
def tag? (r : Run) : Option Run :=
  match r with
  | .char '<' :: r =>
    let name := if r.head?.any (·.isChar '/') then r.tail else r
    let isNameChar (g : Glyph) : Bool := !(g.satisfies ['<', '>', '@', ' '].contains)
    let isInner (g : Glyph) : Bool := !(g.satisfies ['<', '>'].contains)
    if name.head?.any (·.satisfies Char.isAlpha) then
      let rest := name.dropWhile isNameChar
      let rest := if rest.head?.any (·.isChar ' ') then rest.dropWhile isInner else rest
      Run.dropChars? '>' 1 rest
    else none
  | _ => none

/-- The markup that glyphs stand for. What was set aside or escaped gets its backslash back. -/
def markupText (r : Run) : Text :=
  r.flatMap fun g =>
    match g with
    | .char c => [c]
    | .aside t | .escaped t | .raw t => '\\' :: t
    | .held e | .element e => Html.ofElement e

/-- A tag or a comment. -/
def markup : Pattern := fun _ r =>
  let comment? : Option Run :=
    match r with
    | .char '<' :: .char '!' :: .char '-' :: .char '-' :: rest => commentEnd? rest
    | _ => none
  match (tag? r).or comment? with
  | some rest => .found (.raw (markupText (r.take (r.length - rest.length)))) rest
  | none => .nothing

/-- An entity. -/
def entity : Pattern := fun _ r =>
  match r with
  | .char '&' :: rest =>
    let inner := (Run.leadingText rest).takeWhile (· ≠ ';')
    if Html.continuesEntity (Run.leadingText rest) && !"#X".toList.isPrefixOf inner then
      .found (.raw ('&' :: inner ++ [';'])) (rest.drop (inner.length + 1))
    else .nothing
  | _ => .nothing

/-- Up to three marks of emphasis with blanks or an end of the text on both sides. -/
def loneMarks : Pattern := fun previous r =>
  let isBlankOrEnd (g : Option Glyph) : Bool := g.all (·.satisfies Text.isBlank)
  let found (c : Char) : Finding :=
    let count := (r.takeWhile (·.isChar c)).length
    if 0 < count ∧ count ≤ 3 ∧ isBlankOrEnd previous ∧ isBlankOrEnd (r.drop count).head? then
      .found (.aside (List.replicate count c)) (r.drop count)
    else .nothing
  match r with
  | .char '*' :: _ => found '*'
  | .char '_' :: _ => found '_'
  | _ => .nothing

end Pattern

end Vitae.Markdown
