import Vitae.Markdown.Tree

/-!
# Pieces of raw HTML

What stands at an opening angle bracket or an ampersand: a tag that opens or closes an element, a
piece of markup that is complete by itself, or plain text. Comments, instructions and declarations
are complete by themselves, and so are entities.
-/

namespace Vitae.Markdown

open Text

/-- A piece of raw HTML, with the text it is written as. -/
inductive Piece where
  /-- Plain text. -/
  | text (written : Text)
  /-- A tag that opens an element. -/
  | opening (tag : String) (written : Text)
  /-- A tag that closes an element. -/
  | closing (tag : String) (written : Text)
  /-- Complete markup, which may stand on lines of its own if it `stands`. -/
  | whole (written : Text) (stands : Bool)

namespace Piece

/-- What precedes the first occurrence of a text, and what follows it. -/
def cutAt? (mark : Text) : Text → Option (Text × Text)
  | [] => none
  | c :: t =>
    if mark.isPrefixOf (c :: t) then some ([], (c :: t).drop mark.length)
    else (cutAt? mark t).map fun (before, after) => (c :: before, after)

/-! ### Tags -/

/-- Whether a character can stand in the name of a tag. -/
def isNameChar (c : Char) : Bool :=
  !(['\x60', '\t', '\n', '\r', '\x0c', ' ', '/', '>', '\x00'].contains c)

/-- What follows the value of an attribute after the equals sign. -/
def afterValue? (t : Text) : Option Text :=
  match t with
  | q :: inner =>
    if q = '"' ∨ q = '\x27' then
      match inner.dropWhile (· ≠ q) with
      | _ :: rest => some rest
      | [] => none
    else some (t.dropWhile fun c => c ≠ '\x60' && c ≠ '>' && !isBlank c)
  | [] => none

/-- Whether the tag whose attributes start a text closes its element at once, and what follows it.
`apart` says that an attribute can start here. At most `fuel` attributes are read. -/
def tagEnd? : Nat → Bool → Text → Option (Bool × Text)
  | 0, _, _ => none
  | fuel + 1, apart, t =>
    let isGap (c : Char) : Bool := isBlank c || c = '/'
    let gap := t.takeWhile isGap
    match t.drop gap.length with
    | [] => none
    | '>' :: rest => some (gap.getLast? == some '/', rest)
    | c :: rest =>
      if c = '\x60' ∨ (gap.isEmpty ∧ !apart) then none
      else
        let rest := rest.dropWhile fun c => !isGap c && c ≠ '=' && c ≠ '>'
        match trimStart rest with
        | '=' :: value =>
          let value := trimStart (value.dropWhile (· = '='))
          let isQuoted := value.head?.any fun c => c = '"' ∨ c = '\x27'
          (afterValue? value).bind (tagEnd? fuel isQuoted)
        | _ => tagEnd? fuel false rest

/-- The name of a tag in lower case. -/
def tagName (t : Text) : String :=
  String.ofList ((t.takeWhile isNameChar).map Char.toLower)

/-- The opening tag at the start of a text, and what follows it. -/
def opening? (t : Text) : Option (Piece × Text) :=
  match t with
  | '<' :: c :: inner =>
    if c.isAlpha then
      let after := inner.dropWhile isNameChar
      (tagEnd? (after.length + 1) false after).map fun (isClosed, rest) =>
        let written := t.take (t.length - rest.length)
        let tag := tagName (c :: inner)
        if isClosed ∨ tag = "hr" then (.whole written (Element.isBlockTag tag), rest)
        else (.opening tag written, rest)
    else none
  | _ => none

/-- The closing tag at the start of a text, and what follows it. -/
def closing? (t : Text) : Option (Piece × Text) :=
  match t with
  | '<' :: '/' :: c :: inner =>
    if c = '>' then none
    else
      (cutAt? ['>'] (c :: inner)).map fun (inside, rest) =>
        let written := '<' :: '/' :: inside ++ ['>']
        if c.isAlpha then (.closing (tagName inside) written, rest) else (.whole written false, rest)
  | _ => none

/-! ### Comments, instructions and declarations -/

/-- The markup between two marks at the start of a text, and what follows it. -/
def between? (first last : String) (stands : Bool) (t : Text) : Option (Piece × Text) :=
  (dropHead? first.toList t).bind fun inner =>
    (cutAt? last.toList inner).map fun (inside, rest) =>
      (.whole (first.toList ++ inside ++ last.toList) stands, rest)

/-- The declaration at the start of a text, and what follows it. -/
def declaration? (t : Text) : Option (Piece × Text) :=
  let doctype := "<!doctype"
  if "<![CDATA[".toList.isPrefixOf t then between? "<![CDATA[" "]]>" true t
  else
    let isDoctype := doctype.toList.isPrefixOf ((t.take doctype.length).map Char.toLower)
    between? "<!" ">" isDoctype t

/-- The instruction or declaration at the start of a text, and what follows it. It counts only where
it `mayStand` on lines of its own; elsewhere its first two characters are text. -/
def special? (mayStand : Bool) (t : Text) : Option (Piece × Text) :=
  match t with
  | '<' :: '?' :: rest =>
    if mayStand then between? "<?" "?>" true t else some (.text ['<', '?'], rest)
  | '<' :: '!' :: rest =>
    if mayStand then declaration? t else some (.text ['<', '!'], rest)
  | _ => none

/-! ### Entities -/

/-- The entity with a name at the start of a text, and what follows it. -/
def namedEntity? (t : Text) : Option (Piece × Text) :=
  match t with
  | '&' :: c :: inner =>
    let name := c :: inner.takeWhile fun c => c.isAlphanum || c = '-' || c = '.'
    match inner.drop (name.length - 1) with
    | ';' :: rest => if c.isAlpha then some (.whole ('&' :: name ++ [';']) false, rest) else none
    | _ => none
  | _ => none

/-- The entity with a number at the start of a text, and what follows it. The semicolon may be
missing before a character that cannot belong to the number. -/
def numberedEntity? (t : Text) : Option (Piece × Text) :=
  (dropHead? ['&', '#'] t).bind fun t =>
    let (start, digits, rest) :=
      match t with
      | 'x' :: t => (['x'], t.takeWhile isHexDigit, t.dropWhile isHexDigit)
      | 'X' :: t => (['X'], t.takeWhile isHexDigit, t.dropWhile isHexDigit)
      | t => ([], t.takeWhile Char.isDigit, t.dropWhile Char.isDigit)
    match digits, rest with
    | _ :: _, c :: _ =>
      if isHexDigit c then none
      else
        some (.whole ('&' :: '#' :: start ++ digits ++ [';']) false,
          if c = ';' then rest.tail else rest)
    | _, _ => none

/-! ### Any piece -/

/-- The plain text at the start of a text, of one character or more, and what follows it. -/
def plain (t : Text) : Piece × Text :=
  let isPlain (c : Char) : Bool := c ≠ '<' && c ≠ '&'
  (.text (t.take 1 ++ t.tail.takeWhile isPlain), t.tail.dropWhile isPlain)

/-- The piece at the start of a non-empty text, and what follows it. -/
def ofText (mayStand : Bool) (t : Text) : Piece × Text :=
  let found? :=
    match t with
    | '<' :: _ =>
      opening? t <|> closing? t <|> between? "<!--" "-->" true t <|>
        (if "<!--".toList.isPrefixOf t then none else special? mayStand t)
    | '&' :: _ => numberedEntity? t <|> namedEntity? t
    | _ => none
  found?.getD (plain t)

end Piece

end Vitae.Markdown
