import Vitae.Text.Basic

/-!
# Cursors

A cursor is a place in a text that may lie anywhere, also far outside of it. It starts one before
the first character. Reading outside the text gives nothing and never fails.
-/

namespace Vitae

/-- A text and a place in it. -/
structure Cursor where
  source : Text
  position : Int

namespace Cursor

/-- The cursor before the first character of a text. -/
def start (source : Text) : Cursor :=
  ⟨source, -1⟩

/-- The character at a place, if the place lies in the text. -/
def at? (c : Cursor) (place : Int) : Option Char :=
  if 0 ≤ place then c.source[place.toNat]? else none

/-- The character under the cursor. -/
def current? (c : Cursor) : Option Char :=
  c.at? c.position

/-- The cursor `count` places further on. -/
def advance (c : Cursor) (count : Int) : Cursor :=
  { c with position := c.position + count }

/-- The cursor `count` places back. -/
def retreat (c : Cursor) (count : Int) : Cursor :=
  { c with position := c.position - count }

/-- The cursor at a given place. -/
def seek (c : Cursor) (position : Int) : Cursor :=
  { c with position }

/-- The character `count` places ahead. -/
def peekAhead? (c : Cursor) (count : Int) : Option Char :=
  c.at? (c.position + count)

/-- The character `count` places behind. -/
def peekBehind? (c : Cursor) (count : Int) : Option Char :=
  c.at? (c.position - count)

/-- Everything after the cursor. -/
def remaining (c : Cursor) : Text :=
  c.source.drop (c.position + 1).toNat

/-- Whether nothing follows the cursor. -/
def atEnd (c : Cursor) : Bool :=
  (c.source.length : Int) - 1 ≤ c.position

end Cursor

end Vitae
