import Vitae.Text.Basic

/-!
# Blocks of prose

The body of a block of prose may hold the word `end` anywhere. The block ends at the first line,
after the line it starts in, that is `end` and blanks around it.
-/

namespace Vitae

/-- Where a block of prose ends: its body without the blanks at its end, the number of characters
up to just past the closing word, and whether there is a closing word at all. -/
structure TextBlock where
  body : Text
  consumed : Nat
  terminated : Bool
  deriving DecidableEq

namespace TextBlock

open Text

/-- The word that closes a block when it stands alone in a line. -/
def terminator : Text := "end".toList

/-- The offset of the newline before the first closing line, and the offset just past the closing
word. The text starts at offset `start`. -/
def terminator? (start : Nat) : Text → Option (Nat × Nat)
  | [] => none
  | c :: rest =>
    let line := rest.takeWhile (· ≠ '\n')
    if c = '\n' ∧ trim line = terminator then
      some (start, start + 1 + (line.takeWhile isBlank).length + terminator.length)
    else terminator? (start + 1) rest

/-- The block at the start of a text. -/
def find (t : Text) : TextBlock :=
  match terminator? 0 t with
  | some (newline, past) => ⟨trimEnd (t.take newline), past, true⟩
  | none => ⟨trimEnd t, t.length, false⟩

end TextBlock

end Vitae
