/-!
# Text

A text is the list of its characters, so every position and every length counts characters.
This module holds the blank characters and the cuts that the rest of the library makes: trimming
at both ends, splitting at a character, and the words between blanks.
-/

namespace Vitae

/-- A text is the list of its characters. -/
abbrev Text := List Char

/-- Membership in a list of texts is decided by comparing characters. -/
instance : LawfulBEq Text := inferInstance

namespace Text

/-! ### Blank characters -/

/-- The characters that count as white space: the controls that move the carriage, the four
separators U+001C to U+001F, the space, and the spaces and line separators beyond ASCII. -/
def isBlank (c : Char) : Bool :=
  let n := c.toNat
  (9 ≤ n && n ≤ 13) || (28 ≤ n && n ≤ 32) || n == 0x85 || n == 0xA0 || n == 0x1680 ||
    (0x2000 ≤ n && n ≤ 0x200A) || n == 0x2028 || n == 0x2029 || n == 0x202F || n == 0x205F ||
    n == 0x3000

/-! ### Trimming -/

/-- A text without the blanks at its start. -/
def trimStart (t : Text) : Text :=
  t.dropWhile isBlank

/-- A text without the blanks at its end. -/
def trimEnd (t : Text) : Text :=
  (t.reverse.dropWhile isBlank).reverse

/-- A text without the blanks at either end. -/
def trim (t : Text) : Text :=
  trimEnd (trimStart t)

/-! ### Cutting -/

/-- The pieces of a text between the characters that satisfy `cut`: one piece more than there
are such characters. -/
def pieces (cut : Char → Bool) : Text → List Text
  | [] => [[]]
  | c :: t =>
    if cut c then [] :: pieces cut t
    else
      match pieces cut t with
      | [] => [[c]]
      | p :: ps => (c :: p) :: ps

/-- The lines of a text; only the line feed ends a line. -/
def lines (t : Text) : List Text :=
  pieces (· == '\n') t

/-- The non-empty pieces between blanks. -/
def words (t : Text) : List Text :=
  (pieces isBlank t).filter (!·.isEmpty)

/-- The texts in order with `sep` between neighbours. -/
def joinWith (sep : Text) (ts : List Text) : Text :=
  List.intercalate sep ts

/-! ### Ends of a text -/

/-- What follows `head` in a text that starts with it. -/
def dropHead? (head : Text) : Text → Option Text :=
  fun t => if head.isPrefixOf t then some (t.drop head.length) else none

/-- What precedes `tail` in a text that ends with it. -/
def dropTail? (tail : Text) : Text → Option Text :=
  fun t => if tail.isSuffixOf t then some (t.take (t.length - tail.length)) else none

/-! ### Numbers in texts -/

/-- Whether the character is a hexadecimal digit. -/
def isHexDigit (c : Char) : Bool :=
  c.isDigit || ('a' ≤ c.toLower && c.toLower ≤ 'f')

/-- A natural number in decimal digits. -/
def ofNat (n : Nat) : Text :=
  Nat.toDigits 10 n

/-- A natural number in decimal digits, with zeros in front up to `width` characters. -/
def ofNatPadded (width n : Nat) : Text :=
  let digits := ofNat n
  List.replicate (width - digits.length) '0' ++ digits

end Text

end Vitae
