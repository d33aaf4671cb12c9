import Vitae.Markdown.Inset
import Vitae.Markdown.Tag

/-!
# Raw HTML

A tag at the start of a line opens a raw block if its element stands on lines of its own. The block
goes on to the tag that closes it and becomes an inset, with empty lines around its mark. The rest of
the line after a block is its tail, in which a further block may start.
-/

namespace Vitae.Markdown

open Text

/-- A text on the way to one without raw blocks. -/
structure RawHtml where
  /-- The number of blanks before the position, if nothing else precedes it on its line. -/
  indent : Option Nat
  /-- The tags of the elements that are open, the innermost first. A raw block is open if there
  are any. -/
  stack : List String
  /-- Whether the position is in the tail of a raw block. -/
  inTail : Bool
  /-- What was read of the next inset, backwards. -/
  pending : Text
  /-- The text without raw blocks, backwards. -/
  done : Text
  /-- The insets. -/
  insets : Insets

namespace RawHtml

/-- Before the first character. -/
def start (insets : Insets) : RawHtml :=
  ⟨some 0, [], false, [], [], insets⟩

/-- Whether a block can start here, not counting tails. -/
def atLineStart (s : RawHtml) : Bool :=
  s.indent.any (· ≤ 3)

/-- The number of blanks before the position after some more text. -/
def indentAfter (indent : Option Nat) (t : Text) : Option Nat :=
  t.foldl (fun n c =>
    if c = '\n' then some 0 else if isBlank c then n.map (· + 1) else none) indent

/-- The text with more at its end. -/
def write (s : RawHtml) (t : Text) : RawHtml :=
  { s with done := t.reverse ++ s.done }

/-- The next inset with more at its end. -/
def hold (s : RawHtml) (t : Text) : RawHtml :=
  { s with pending := t.reverse ++ s.pending }

/-- The text with the mark of a new inset at its end. -/
def store (s : RawHtml) (html : Text) : RawHtml :=
  { s.write (mark s.insets.length) with insets := s.insets ++ [html] }

/-- Whether an empty line follows the end of the line. -/
def precedesGap (rest : Text) : Bool :=
  match rest.dropWhile (· = ' ') with
  | '\n' :: rest => (rest.dropWhile (· = ' ')).head? == some '\n'
  | _ => false

/-- After plain text. -/
def afterText (s : RawHtml) (t : Text) : RawHtml :=
  let s := { s with inTail := s.inTail && !t.contains '\n' }
  if s.stack.isEmpty then s.write t else s.hold t

/-- After a tag that opens an element. -/
def afterOpening (s : RawHtml) (tag : String) (written : Text) : RawHtml :=
  let isBlock := Element.isBlockTag tag && (s.inTail || s.atLineStart)
  let s := if isBlock then s.write ['\n'] else s
  if isBlock || !s.stack.isEmpty then { s.hold written with stack := tag :: s.stack }
  else s.write written

/-- After a tag that closes an element, with `rest` behind it. -/
def afterClosing (s : RawHtml) (tag : String) (written rest : Text) : RawHtml :=
  if s.stack.isEmpty then s.write written
  else
    let s := s.hold written
    let stack := if s.stack.contains tag then (s.stack.dropWhile (· ≠ tag)).tail else s.stack
    if stack.isEmpty then
      let gap := precedesGap rest
      let s := if gap then s.hold ['\n'] else s
      let s := { s with stack := [], inTail := s.inTail || !gap }
      let s := (s.store s.pending.reverse).write ['\n', '\n']
      { s with pending := [] }
    else { s with stack := stack }

/-- After complete markup, with `rest` behind it. -/
def afterWhole (s : RawHtml) (written : Text) (stands : Bool) (rest : Text) : RawHtml :=
  if s.inTail || !s.stack.isEmpty then s.hold written
  else if s.atLineStart && stands then
    let gap := precedesGap rest
    let s := { s with inTail := !gap }
    let s :=
      match s.done with
      | '\n' :: '\n' :: _ => s
      | '\n' :: _ => s.write ['\n']
      | _ => s
    (s.store (if gap then written ++ ['\n'] else written)).write ['\n', '\n']
  else s.write written

/-- After a piece, with `rest` behind it. -/
def afterPiece (s : RawHtml) (p : Piece) (rest : Text) : RawHtml :=
  match p with
  | .text t => s.afterText t
  | .opening tag t => s.afterOpening tag t
  | .closing tag t => s.afterClosing tag t rest
  | .whole t stands => s.afterWhole t stands rest

/-- The elements whose content is no markup. -/
def opaqueTags : List String := ["script", "style"]

/-- Whether a text starts with the tag that closes an element. -/
def closes (tag : String) (t : Text) : Bool :=
  match dropHead? ('<' :: '/' :: tag.toList) (t.map Char.toLower) with
  | some rest => (trimStart rest).head? == some '>'
  | none => false

/-- The text up to the tag that closes an element, and the text from there on. -/
def untilClosed (tag : String) : Text → Text × Text
  | [] => ([], [])
  | c :: t =>
    if closes tag (c :: t) then ([], c :: t)
    else
      let (inside, rest) := untilClosed tag t
      (c :: inside, rest)

/-- Whether a text starts like an entity with a number but is none. -/
def isBadEntity (t : Text) : Bool :=
  ['&', '#'].isPrefixOf t && (Piece.numberedEntity? t).isNone

/-- After a text. A bad entity is passed over once, if a semicolon follows it anywhere; otherwise
everything from it on is plain text. At most `fuel` pieces are read. -/
def run (s : RawHtml) (struck : Bool) : Nat → Text → RawHtml
  | 0, t => s.afterText t
  | _, [] => s
  | fuel + 1, t =>
    if isBadEntity t && (struck || !t.contains ';') then s.afterText t
    else
      let (p, rest) := Piece.ofText (s.atLineStart || s.inTail) t
      let next := s.afterPiece p rest
      let next := { next with indent := indentAfter s.indent (t.take (t.length - rest.length)) }
      let struck := struck || isBadEntity t
      match p with
      | .opening tag _ =>
        if opaqueTags.contains tag && !next.stack.isEmpty then
          let (inside, rest) := untilClosed tag rest
          let next := { next.afterText inside with indent := indentAfter next.indent inside }
          next.run struck fuel rest
        else next.run struck fuel rest
      | _ => next.run struck fuel rest

/-- The text with its raw blocks as insets. What is left of an open block is an inset too. -/
def extract (insets : Insets) (t : Text) : Text × Insets :=
  let s := (start insets).run false (t.length + 1) t
  let s := if s.pending.isEmpty then s else s.store s.pending.reverse
  (s.done.reverse, s.insets)

end RawHtml

end Vitae.Markdown
