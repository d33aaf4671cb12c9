import Vitae.Text.Basic

/-!
# Normal form of a source

Before anything is recognised, a source is brought into a normal form: its lines end in a line feed,
tabs are filled up with spaces, lines of spaces are empty, and two empty lines follow at the end. The
two characters that enclose marks are removed, so a source cannot hold a mark.
-/

namespace Vitae.Markdown

open Text

/-- The width of a tab, and the indentation of a level. -/
def tabWidth : Nat := 4

/-- The character at the start of a mark. -/
def markStart : Char := '\x02'

/-- The character at the end of a mark. -/
def markEnd : Char := '\x03'

/-- The mark with a number. -/
def mark (number : Nat) : Text :=
  markStart :: ofNat number ++ [markEnd]

namespace Source

/-- The text with every line end a single line feed. -/
def normalizeLineEnds : Text → Text
  | [] => []
  | '\r' :: '\n' :: t => '\n' :: normalizeLineEnds t
  | c :: t => (if c = '\r' then '\n' else c) :: normalizeLineEnds t

/-- The text with tabs filled up with spaces, where `column` characters of its line precede it. -/
def expandTabs (column : Nat) : Text → Text
  | [] => []
  | c :: t =>
    if c = '\t' then
      let fill := tabWidth - column % tabWidth
      List.replicate fill ' ' ++ expandTabs (column + fill) t
    else c :: expandTabs (if c = '\n' then 0 else column + 1) t

/-- The line, emptied if it has nothing but spaces. -/
def emptySpaces (line : Text) : Text :=
  if line.all (· = ' ') then [] else line

/-- The normal form of a source. The first line keeps its spaces. -/
def normalize (t : Text) : Text :=
  let t := normalizeLineEnds (t.filter fun c => c ≠ markStart ∧ c ≠ markEnd)
  let t := expandTabs 0 (t ++ ['\n', '\n'])
  match lines t with
  | [] => []
  | first :: rest => joinWith ['\n'] (first :: rest.map emptySpaces)

end Source

end Vitae.Markdown
