import Vitae.Markdown.Html
import Vitae.Markdown.Inset

/-!
# Fenced code

A line of three or more tildes or backticks opens a fence, and the first line that repeats it closes
it. After the opening fence may stand the name of a language, or attributes in braces: `.name` adds
a class, the first of which is the language, and `#name` sets the identifier. The code between
becomes an inset.
-/

namespace Vitae.Markdown

open Text

/-- What the opening line of a fence says: the fence itself, the language, the identifier and the
classes. -/
structure FenceHead where
  fence : Text
  language : Text
  id : Text
  classes : List Text

namespace FenceHead

/-! ### Attributes -/

/-- An attribute in braces: its name and its value. -/
abbrev Attribute := Text × Text

/-- Whether the character can stand in the name of an attribute. -/
def isNameChar (c : Char) : Bool :=
  c ≠ ' ' && c ≠ '=' && c ≠ '}'

/-- The value of an attribute after the equals sign, and what follows it: a text in quotes, or a
word. -/
def attributeValue? (t : Text) : Option (Text × Text) :=
  let word := t.takeWhile isNameChar
  let plain := if word.isEmpty then none else some (word, t.dropWhile isNameChar)
  match t with
  | q :: inner =>
    if q = '"' ∨ q = '\x27' then
      match inner.dropWhile (· ≠ q) with
      | _ :: rest => some (inner.takeWhile (· ≠ q), rest)
      | [] => plain
    else plain
  | [] => none

/-- A word without a value: a class, an identifier, or its own value. -/
def wordAttribute : Text → Attribute
  | '.' :: name => (['.'], name)
  | '#' :: name => ("id".toList, name)
  | name => (name, name)

/-- The attributes at the start of a text, and what cannot be read. At most `fuel` are read. -/
def attributes : Nat → Text → List Attribute × Text
  | 0, t => ([], t)
  | _, [] => ([], [])
  | fuel + 1, ' ' :: t => attributes fuel t
  | fuel + 1, t =>
    let name := t.takeWhile isNameChar
    if name.isEmpty then ([], t)
    else
      match t.dropWhile isNameChar with
      | '=' :: rest =>
        match attributeValue? rest with
        | some (value, rest) =>
          let (more, left) := attributes fuel rest
          ((name, value) :: more, left)
        | none =>
          let (more, left) := attributes fuel ('=' :: rest)
          (wordAttribute name :: more, left)
      | rest =>
        let (more, left) := attributes fuel rest
        (wordAttribute name :: more, left)

/-- The head with attributes, unless a brace is left over among them. -/
def ofAttributes? (fence : Text) (t : Text) : Option FenceHead :=
  let (read, left) := attributes t.length t
  if left.contains '}' then none
  else
    let classes := (read.filter (·.1 = ['.'])).map (·.2)
    let id := ((read.filter (·.1 = "id".toList)).getLast?.map (·.2)).getD []
    some ⟨fence, classes.head?.getD [], id, classes.tail⟩

/-! ### The opening line -/

/-- Whether the character can stand in the name of a language. -/
def isLanguageChar (c : Char) : Bool :=
  isWordChar c || c = '#' || c = '.' || c = '+' || c = '-'

/-- Whether a text is the list of emphasised lines: `hl_lines=` and a text in quotes. -/
def isLineList (t : Text) : Bool :=
  match dropHead? "hl_lines=".toList t with
  | some (q :: rest) =>
    (q = '"' || q = '\x27') &&
      ((rest.reverse.dropWhile (· = ' ')).head? == some q)
  | _ => false

/-- The language at the start of a text, where the rest of the line says nothing else. -/
def language? (t : Text) : Option Text :=
  let t := if t.head? = some '.' then t.tail else t
  let longest := t.takeWhile isLanguageChar
  if (t.drop longest.length).all (· = ' ') then some longest
  else
    ((List.range (longest.length + 1)).reverse.find? fun n =>
      isLineList ((t.drop n).dropWhile (· = ' '))).map (t.take ·)

/-- The head of a fence that a line opens. -/
def ofLine? (line : Text) : Option FenceHead :=
  match line with
  | [] => none
  | c :: _ =>
    let fence := line.takeWhile (· = c)
    if (c = '~' ∨ c = '`') ∧ 3 ≤ fence.length then
      let rest := (line.drop fence.length).dropWhile (· = ' ')
      if 2 ≤ rest.length ∧ rest.head? = some '{' ∧ rest.getLast? = some '}' then
        ofAttributes? fence rest.tail.dropLast
      else (language? rest).map fun language => ⟨fence, language, [], []⟩
    else none

/-- Whether a line closes the fence. -/
def isClosedBy (h : FenceHead) (line : Text) : Bool :=
  h.fence.isPrefixOf line && (line.drop h.fence.length).all (· = ' ')

/-- The markup of the code in a fence. -/
def html (h : FenceHead) (code : List Text) : Text :=
  let field (name : String) (value : Text) : Text :=
    if value.isEmpty then []
    else ' ' :: name.toList ++ '=' :: '"' :: Html.escapeAttribute value ++ ['"']
  let language := if h.language.isEmpty then [] else "language-".toList ++ h.language
  let classes := joinWith [' '] h.classes
  let classText := if h.classes.isEmpty then [] else
    " class=\"".toList ++ Html.escapeAttribute classes ++ ['"']
  "<pre".toList ++ field "id" h.id ++ classText ++ "><code".toList ++
    field "class" language ++ '>' ::
    (code.flatMap fun line => (Html.escapeCode line).flatMap fun c =>
      if c = '"' then "&quot;".toList else [c]) ++ "</code></pre>".toList

end FenceHead

namespace Fence

/-- The lines of a text with every fenced code replaced by the mark of an inset on a line of its own,
and the insets. -/
def extract (insets : Insets) : Nat → List Text → List Text × Insets
  | 0, ls => (ls, insets)
  | _, [] => ([], insets)
  | fuel + 1, line :: rest =>
    let kept := (line :: ·)
    match FenceHead.ofLine? line with
    | none =>
      let (ls, insets) := extract insets fuel rest
      (kept ls, insets)
    | some head =>
      let code := rest.takeWhile fun l => !head.isClosedBy l
      match rest.drop code.length with
      | [] =>
        let (ls, insets) := extract insets fuel rest
        (kept ls, insets)
      | _ :: after =>
        let (ls, more) := extract (insets ++ [head.html (code.map (· ++ ['\n']))]) fuel after
        ([] :: mark insets.length :: [] :: ls, more)

end Fence

end Vitae.Markdown
