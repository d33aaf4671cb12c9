import Vitae.Markdown.Definition
import Vitae.Markdown.ListItem
import Vitae.Markdown.Table

/-!
# Kinds of blocks

A block is a text without empty lines, except that one may stand at its start. What a block is
follows from its lines and from the element it belongs to. Several kinds take only some of the
lines; the lines before and after them are blocks of their own.
-/

namespace Vitae.Markdown

open Text

/-- Where a block stands, as far as it changes what the block is. -/
inductive Place where
  /-- In the document or a quotation. -/
  | flow
  /-- In an item, with the indentation of the item taken off. -/
  | indented
  /-- In an item that follows the one before it without an empty line. -/
  | item
  /-- In an item after an empty line. -/
  | looseItem
  deriving DecidableEq

/-- What a block is. -/
inductive BlockKind where
  /-- An empty line, and the lines after it. -/
  | gap (rest : Option Text)
  /-- A block that belongs to the last item of a list. -/
  | nested
  /-- Indented code without its indentation, and the lines after it. -/
  | code (body rest : Text)
  /-- A table. -/
  | table (t : Table)
  /-- A heading on one line. -/
  | heading (before : Text) (level : Nat) (title after : Text)
  /-- A heading with a line under it. -/
  | underlined (level : Nat) (title rest : Text)
  /-- A rule across the page. -/
  | rule (before after : Text)
  /-- Items of a list with the given tag. -/
  | items (tag : String) (texts : List Text)
  /-- A quotation without its marks. -/
  | quote (before inner : Text)
  /-- A link definition. -/
  | definition (before : Text) (d : Definition) (after : Text)
  /-- Anything else. -/
  | paragraph

namespace BlockKind

/-- The text of lines. -/
def ofLines (ls : List Text) : Text :=
  joinWith ['\n'] ls

/-! ### Code -/

/-- The lines at the start that are indented or blank, without their indentation, and the lines
after them. -/
def unindent : List Text → List Text × List Text
  | [] => ([], [])
  | line :: rest =>
    let (inside, after) := unindent rest
    if ListItem.isIndented line then (line.drop tabWidth :: inside, after)
    else if line.all isBlank then ([] :: inside, after)
    else ([], line :: rest)

/-- The block as indented code. -/
def code? (block : Text) : Option BlockKind :=
  if ListItem.isIndented block then
    let (inside, after) := unindent (lines block)
    some (.code (ofLines inside) (ofLines after))
  else none

/-! ### Headings -/

/-- The title of a heading up to the hashes at the end of the line, and the lines after it. A
backslash stands with the character after it, which cannot be the end of the line. -/
def title? : Text → Option (Text × Text)
  | t =>
    match t.dropWhile (· = '#') with
    | [] => some ([], [])
    | '\n' :: after => some ([], after)
    | _ => go t
where
  /-- The same for a text that does not start with hashes at the end of a line. -/
  go : Text → Option (Text × Text)
    | [] => none
    | '\\' :: '\n' :: _ => none
    | '\\' :: c :: t => (title? t).map fun (title, after) => ('\\' :: c :: title, after)
    | c :: t =>
      if c = '\\' then none else (title? t).map fun (title, after) => (c :: title, after)

/-- The heading that a line starts, with the lines before it, which are given backwards. -/
def headingFrom (before : List Text) : List Text → Option BlockKind
  | [] => none
  | line :: rest =>
    let level := min 6 (line.takeWhile (· = '#')).length
    match if level = 0 then none else title? (ofLines (line.drop level :: rest)) with
    | some (title, after) => some (.heading (ofLines before.reverse) level (trim title) after)
    | none => headingFrom (line :: before) rest

/-- The block with a heading on one of its lines. -/
def heading? (block : Text) : Option BlockKind :=
  headingFrom [] (lines block)

/-- The block as a heading with a line of hyphens or equals signs under it. -/
def underlined? (block : Text) : Option BlockKind :=
  match lines block with
  | title :: line :: rest =>
    let isMark (c : Char) : Bool := c = '=' || c = '-'
    let marked := line.takeWhile isMark
    if !marked.isEmpty && (line.dropWhile isMark).all (· = ' ') then
      some (.underlined (if marked.head? = some '=' then 1 else 2) (trim title) (ofLines rest))
    else none
  | _ => none

/-! ### Rules -/

/-- Whether a line is a rule: three or more of one mark, with at most two spaces between them. -/
def isRule (line : Text) : Bool :=
  let indent := (line.takeWhile (· = ' ')).length
  match line.drop indent with
  | [] => false
  | mark :: rest =>
    let body := mark :: (rest.reverse.dropWhile (· = ' ')).reverse
    indent < tabWidth && ['-', '_', '*'].contains mark && 3 ≤ body.count mark &&
      body.all (fun c => c = mark || c = ' ') && (pieces (· ≠ ' ') body).all (·.length ≤ 2)

/-- The block with a rule on one of its lines. -/
def rule? (block : Text) : Option BlockKind :=
  let before := (lines block).takeWhile (!isRule ·)
  match (lines block).drop before.length with
  | [] => none
  | _ :: after =>
    let isEmpty (line : Text) : Bool := line.isEmpty
    some (.rule (ofLines (before.reverse.dropWhile isEmpty).reverse)
      (ofLines (after.dropWhile isEmpty)))

/-! ### Quotations -/

/-- The text after the mark of a quotation at the start of a line. -/
def quoted? (line : Text) : Option Text :=
  let indent := (line.takeWhile (· = ' ')).length
  if tabWidth ≤ indent then none
  else
    match line.drop indent with
    | '>' :: ' ' :: rest => some rest
    | '>' :: rest => some rest
    | _ => none

/-- A line of a quotation without its mark, if it has one. -/
def unquote (line : Text) : Text :=
  if trim line = ['>'] then [] else (quoted? line).getD line

/-- The block with a quotation from one of its lines on. An empty line separates it from lines
before it. -/
def quote? (block : Text) : Option BlockKind :=
  let before := (lines block).takeWhile fun line => (quoted? line).isNone
  match (lines block).drop before.length with
  | [] => none
  | inside =>
    let inner := inside.map unquote
    some (.quote (ofLines before) (ofLines (if before.isEmpty then inner else [] :: inner)))

/-! ### All kinds -/

/-- The block as items of a list. -/
def items? (block : Text) : Option BlockKind :=
  if ListItem.startsNumbered block then some (.items "ol" (ListItem.texts block))
  else if ListItem.startsBulleted block then some (.items "ul" (ListItem.texts block))
  else none

/-- The block as a table. -/
def table? (block : Text) : Option BlockKind :=
  (Table.ofBlock? block).map BlockKind.table

/-- The block with a link definition on one of its lines. -/
def definition? (block : Text) : Option BlockKind :=
  (Definition.find? block).map fun (before, d, after) => BlockKind.definition before d after

/-- Whether an element is a list. -/
def isList (e : Element) : Bool :=
  e.tag = "ol" || e.tag = "ul"

/-- Whether a block continues the last item of a list. -/
def isNested (place : Place) (parent : Element) (block : Text) : Bool :=
  ListItem.isIndented block && place ≠ .indented &&
    (parent.tag = "li" || parent.last?.any isList)

/-- What a block is. -/
def ofBlock (place : Place) (parent : Element) (block : Text) : BlockKind :=
  match block with
  | [] => .gap none
  | '\n' :: rest => .gap (some rest)
  | _ =>
    if isNested place parent block then .nested
    else
      (code? block <|> table? block <|> heading? block <|> underlined? block <|> rule? block <|>
        items? block <|> quote? block <|> definition? block).getD .paragraph

end BlockKind

end Vitae.Markdown
