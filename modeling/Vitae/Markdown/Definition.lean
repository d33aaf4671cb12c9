import Vitae.Markdown.Tree
import Vitae.Text.Lowercase

/-!
# Link definitions

A definition gives a link a name that the text can refer to: the name in brackets and a colon, the
address, and perhaps a title in quotes or parentheses. The address may stand on the next line, and
so may the title. The rest of the last line must be empty.
-/

namespace Vitae.Markdown

open Text

/-- A named link. -/
structure Definition where
  name : Text
  address : Text
  title : Text

namespace Definition

/-- A text without the spaces at its start. -/
def skipSpaces (t : Text) : Text :=
  t.dropWhile (· = ' ')

/-- Whether a text is at the end of a line. -/
def atLineEnd (t : Text) : Bool :=
  t.head?.all (· = '\n')

/-- The title at the start of a text, and what follows it at the end of the line: the longest text
between `opening` and `closing` on the line. -/
def titleBetween? (opening closing : Char) (t : Text) : Option (Text × Text) :=
  match t with
  | [] => none
  | c :: inner =>
    if c ≠ opening then none
    else
      let line := inner.takeWhile (· ≠ '\n')
      let last := (line.reverse.dropWhile (· = ' '))
      match last with
      | d :: title => if d = closing then some (title.reverse, inner.drop line.length) else none
      | [] => none

/-- The title at the start of a text, if the line ends after it. -/
def title? (t : Text) : Option (Text × Text) :=
  (titleBetween? '"' '"' t).or
    ((titleBetween? '\x27' '\x27' t).or (titleBetween? '(' ')' t))

/-- What follows the address: the title, which is empty if there is none, and the text after the
definition. -/
def ending? (t : Text) : Option (Text × Text) :=
  let sameLine := skipSpaces t
  let ended (t : Text) : Option (Text × Text) :=
    (title? t).or (if atLineEnd t then some ([], t) else none)
  let nextLine : Option (Text × Text) :=
    match sameLine with
    | '\n' :: t => ended (skipSpaces t)
    | _ => none
  nextLine.or (ended sameLine)

/-- The address of a length at most `n` at the start of a text, as long as a definition allows,
and what follows it. -/
def address? (t : Text) : Nat → Option (Text × Text × Text)
  | 0 => none
  | n + 1 =>
    match ending? (t.drop (n + 1)) with
    | some (title, rest) => some (t.take (n + 1), title, rest)
    | none => address? t n

/-- The definition at the start of a line, and the text after it. -/
def ofLine? (t : Text) : Option (Definition × Text) :=
  if 3 < (t.takeWhile (· = ' ')).length then none
  else
    match skipSpaces t with
    | '[' :: t =>
      let isInner (c : Char) : Bool := c ≠ '[' ∧ c ≠ ']'
      match t.dropWhile isInner with
      | ']' :: ':' :: rest =>
        let rest := skipSpaces rest
        let rest := if rest.head? = some '\n' then skipSpaces rest.tail else rest
        let longest := rest.takeWhile (!isBlank ·)
        (address? rest longest.length).map fun (address, title, after) =>
          let address := address.dropWhile (· = '<')
          (⟨lowercase (trim (t.takeWhile isInner)),
            (address.reverse.dropWhile (· = '>')).reverse, title⟩, after)
      | _ => none
    | _ => none

/-- The first definition in a block, with the texts before and after it. The lines passed over are
given backwards. -/
def findFrom (before : List Text) : List Text → Option (Text × Definition × Text)
  | [] => none
  | line :: rest =>
    let canStart := (skipSpaces line).head? = some '['
    match if canStart then ofLine? (joinWith ['\n'] (line :: rest)) else none with
    | some (d, after) =>
      let passed := (before.reverse.map (· ++ ['\n'])).flatten
      some (passed, d, after)
    | none => findFrom (line :: before) rest

/-- The first definition in a block, with the texts before and after it. -/
def find? (block : Text) : Option (Text × Definition × Text) :=
  findFrom [] (lines block)

/-- The definition with a name; of several, the last. -/
def named? (name : Text) (ds : List Definition) : Option Definition :=
  ds.reverse.find? (·.name = name)

end Definition

end Vitae.Markdown
