import Vitae.Text.Printable

/-!
# Quoted texts in messages

A message shows a text between single quotes, with everything that a reader could not see or
could mistake written as an escape. A text that holds a single quote and no double quote stands
between double quotes instead.
-/

namespace Vitae.Text

/-- A number in lower-case hexadecimal digits, with zeros in front up to `width` characters. -/
def hex (width n : Nat) : Text :=
  let digits := Nat.toDigits 16 n
  List.replicate (width - digits.length) '0' ++ digits

/-- A character as it stands inside the given quotes. -/
def quotedChar (quote c : Char) : Text :=
  if c == quote || c == '\\' then ['\\', c]
  else if c == '\t' then ['\\', 't']
  else if c == '\n' then ['\\', 'n']
  else if c == '\r' then ['\\', 'r']
  else if isPrintable c then [c]
  else if c.toNat < 0x100 then '\\' :: 'x' :: hex 2 c.toNat
  else if c.toNat < 0x10000 then '\\' :: 'u' :: hex 4 c.toNat
  else '\\' :: 'U' :: hex 8 c.toNat

/-- The quotes that a text stands between. -/
def quoteFor (t : Text) : Char :=
  if t.contains '\x27' && !t.contains '"' then '"' else '\x27'

/-- A text as a message shows it. -/
def quoted (t : Text) : Text :=
  let quote := quoteFor t
  quote :: t.flatMap (quotedChar quote) ++ [quote]

end Vitae.Text
