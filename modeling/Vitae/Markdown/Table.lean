import Vitae.Markdown.Tree

/-!
# Tables

A table is a block whose second line separates the head from the body: as many cells as the head
has, made of hyphens, with a colon where the column is aligned. Pipes separate cells; a row may have
one at either end as well. A pipe in a code span or after a backslash separates nothing.
-/

namespace Vitae.Markdown

open Text

/-- How the cells of a column stand in it. -/
inductive Alignment where
  | left
  | center
  | right
  deriving DecidableEq

/-- A table: the alignment of each column if it has one, the cells of the head, and the rows. -/
structure Table where
  alignments : List (Option Alignment)
  head : List Text
  rows : List (List Text)

namespace Table

/-! ### Cutting a row into cells -/

/-- A text without the spaces at either end. -/
def trimSpaces (t : Text) : Text :=
  ((t.dropWhile (· = ' ')).reverse.dropWhile (· = ' ')).reverse

/-- Backticks in a row: where they stand, their number as the end of a code span, and their number
as its start, which is one less if a backslash precedes them. -/
structure Ticks where
  first : Nat
  last : Nat
  closing : Nat
  opening : Nat

/-- The backticks and the positions of the pipes in a text that starts at position `i`. A pair of
backslashes and an escaped pipe are passed over. -/
def marks (fuel i : Nat) (t : Text) : List Ticks × List Nat :=
  match fuel, t with
  | 0, _ | _, [] => ([], [])
  | fuel + 1, '\\' :: '\\' :: t => marks fuel (i + 2) t
  | fuel + 1, '\\' :: '|' :: t => marks fuel (i + 2) t
  | fuel + 1, '|' :: t =>
    let (ticks, pipes) := marks fuel (i + 1) t
    (ticks, i :: pipes)
  | fuel + 1, c :: t =>
    let n := ((c :: t).takeWhile (· = '`')).length
    let m := (t.takeWhile (· = '`')).length
    if c = '`' then
      let (ticks, pipes) := marks fuel (i + n) (t.drop m)
      (⟨i, i + n - 1, n, n⟩ :: ticks, pipes)
    else if c = '\\' ∧ 0 < m then
      let (ticks, pipes) := marks fuel (i + 1 + m) (t.drop m)
      (⟨i, i + m, m, m - 1⟩ :: ticks, pipes)
    else marks fuel (i + 1) t

/-- The first and last positions of the code spans between backticks. -/
def spans : List Ticks → List (Nat × Nat)
  | [] => []
  | t :: ts =>
    if t.opening = 0 then spans ts
    else
      match h : ts.dropWhile (·.closing ≠ t.opening) with
      | [] => spans ts
      | c :: rest =>
        have : rest.length < ts.length := by
          have := (List.dropWhile_suffix (l := ts) (·.closing ≠ t.opening)).length_le
          rw [h] at this
          exact this
        (t.first, c.last) :: spans rest
termination_by ts => ts.length

/-- The pieces of a text, which starts at position `i`, between the given positions. -/
def cutAt (positions : List Nat) (i : Nat) : Text → List Text
  | [] => [[]]
  | c :: t =>
    if positions.contains i then [] :: cutAt positions (i + 1) t
    else
      match cutAt positions (i + 1) t with
      | [] => [[c]]
      | p :: ps => (c :: p) :: ps

/-- The texts between the pipes of a row. -/
def piecesOf (row : Text) : List Text :=
  let (ticks, pipes) := marks (row.length + 1) 0 row
  let inside (i : Nat) : Bool := (spans ticks).any fun (first, last) => first ≤ i && i ≤ last
  cutAt (pipes.filter (!inside ·)) 0 row

/-- What precedes the pipe at the end of a row, unless the pipe is escaped. Pairs of backslashes
before it go with it. -/
def dropEndBorder? (row : Text) : Option Text :=
  match row.reverse with
  | '|' :: back =>
    let slashes := (back.takeWhile (· = '\\')).length
    if slashes % 2 = 0 then some (back.drop slashes).reverse else none
  | _ => none

/-- Whether a row has a pipe at one of its ends. -/
def isBordered (row : Text) : Bool :=
  row.head? == some '|' || (dropEndBorder? row).isSome

/-- The cells of a row, in a table whose head is `bordered` or not. -/
def cells (bordered : Bool) (row : Text) : List Text :=
  if bordered then
    let row := if row.head? = some '|' then row.tail else row
    piecesOf ((dropEndBorder? row).getD row)
  else piecesOf row

/-! ### Reading a table -/

/-- The alignment that a cell of the second line gives its column. -/
def alignmentOf (cell : Text) : Option Alignment :=
  let cell := trimSpaces cell
  match cell.head? == some ':', cell.getLast? == some ':' with
  | true, true => some .center
  | true, false => some .left
  | false, true => some .right
  | false, false => none

/-- The table that a block is, if it is one. A table of one column has a pipe at an end of every
line. -/
def ofBlock? (block : Text) : Option Table :=
  match (lines block).map trimSpaces with
  | first :: second :: rows =>
    let bordered := isBordered first
    let head := cells bordered first
    let separators := cells bordered second
    let isWide := 1 < head.length || (bordered && (second :: rows).all isBordered)
    let isRuled := separators.length == head.length &&
      separators.flatten.all ['|', ':', '-', ' '].contains
    if isWide && isRuled then
      some ⟨separators.map alignmentOf, head, rows.map (cells bordered)⟩
    else none
  | _ => none

/-! ### The elements of a table -/

/-- The attributes of a cell in a column. -/
def cellAttributes : Option Alignment → List (String × Text)
  | none => []
  | some a =>
    let word := match a with
      | .left => "left"
      | .center => "center"
      | .right => "right"
    [("style", ("text-align: " ++ word ++ ";").toList)]

/-- A row of elements, one for each column: cells that are missing are empty, and cells beyond the
last column are dropped. -/
def rowElement (tag : String) : List (Option Alignment) → List Text → List Glyph
  | [], _ => []
  | a :: as, cells =>
    .element (.mk tag (cellAttributes a) false (Run.ofText (trimSpaces (cells.head?.getD [])))) ::
      rowElement tag as cells.tail

/-- The table as an element. A table without rows has a row of empty cells. -/
def toElement (t : Table) : Element :=
  let row (cells : List Glyph) : Glyph := .element (.plain "tr" cells)
  let body :=
    if t.rows.isEmpty then [row (t.alignments.map fun _ => .element (.plain "td" []))]
    else t.rows.map fun cells => row (rowElement "td" t.alignments cells)
  .plain "table" [
    .element (.plain "thead" [row (rowElement "th" t.alignments t.head)]),
    .element (.plain "tbody" body)]

end Table

end Vitae.Markdown
