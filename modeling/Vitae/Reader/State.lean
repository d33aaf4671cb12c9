import Vitae.Import.Target
import Vitae.Outline

/-!
# States of the reader

Between the constructs of a document the reader spells a keyword; after a keyword it collects the
text of a header up to the character that completes it. Its state is this phase and the titles of
the open sections. What it produces goes into a yield: rows of the outline, calls of the library and
the renderer, and remarks.
-/

namespace Vitae

/-- A part of a construct that is being collected. -/
inductive Header
  /-- The title of a section. -/
  | title
  /-- The identifier of a label. -/
  | labelId
  /-- The content of a label whose identifier is known. -/
  | labelContent (id : Text)
  /-- The identifier of a block of prose. -/
  | blockId
  /-- The directive of an import. -/
  | directive
  deriving DecidableEq

namespace Header

/-- The character that completes a header. -/
def stop : Header → Char
  | .labelId | .blockId => ':'
  | .title | .labelContent _ | .directive => '\n'

end Header

/-- What the reader is doing. -/
inductive Phase
  /-- Spelling a keyword; the blanks between its characters do not count. -/
  | seeking (word : Text)
  /-- Collecting a header. -/
  | filling (header : Header) (buffer : Text)
  deriving DecidableEq

/-- The state of the reader: its phase, and the titles of the open sections from the outside in. -/
structure ReaderState where
  phase : Phase
  opened : List Text
  deriving DecidableEq

/-- The part of a document that the reader stands in, as it shows to others. -/
inductive Place
  | top
  | inSection
  | title
  | labelId
  | labelContent
  | blockId
  | blockBody
  | directive
  deriving DecidableEq, Repr

namespace ReaderState

/-- The state before the first character. -/
def initial : ReaderState :=
  ⟨.seeking [], []⟩

/-- The place that a state shows. -/
def place (s : ReaderState) : Place :=
  match s.phase with
  | .seeking _ => if s.opened.isEmpty then .top else .inSection
  | .filling header _ =>
    match header with
    | .title => .title
    | .labelId => .labelId
    | .labelContent _ => .labelContent
    | .blockId => .blockId
    | .directive => .directive

/-- The depth of the nodes that the reader adds next. -/
def depth (s : ReaderState) : Nat :=
  s.opened.length

/-- The state between constructs, with an empty word. -/
def seek (s : ReaderState) : ReaderState :=
  { s with phase := .seeking [] }

/-- The state at the start of a header. -/
def fill (s : ReaderState) (header : Header) : ReaderState :=
  { s with phase := .filling header [] }

end ReaderState

/-! ### What the reader produces -/

/-- A call of one of the reader's collaborators. -/
inductive Call
  /-- The library is asked for a path. -/
  | fetch (path : Text)
  /-- The renderer is given a body. -/
  | render (body : Text)
  deriving DecidableEq

/-- A call, and the place where the outermost reader stood. -/
structure Event where
  call : Call
  place : Place
  deriving DecidableEq

/-- A note that the reader makes without changing its course. -/
inductive Remark
  /-- A literal starts with the keyword of a date and names no instant. -/
  | unreadableDate (literal : Text)
  /-- A block of prose has no closing line. -/
  | unterminatedBlock (id : Text)
  /-- A document is asked for. -/
  | readingImport (path : Text)
  /-- No library is there, so the document is taken as empty. -/
  | emptyImport (path : Text)
  /-- A refused import has ended a document. -/
  | stoppedEarly (refusal : Refusal)
  deriving DecidableEq

namespace Remark

open Text

/-- The wording of a remark. -/
def message : Remark → Text
  | .unreadableDate literal => "Not a date literal, keeping as text: ".toList ++ quoted literal
  | .unterminatedBlock id =>
    "Unterminated text block ".toList ++ quoted id ++ " runs to end of input".toList
  | .readingImport path => "Reading import ".toList ++ path
  | .emptyImport path =>
    "No read_file configured, import ".toList ++ path ++
      " resolves to an empty document".toList
  | .stoppedEarly refusal =>
    "Stopped parsing early, returning partial tree: ".toList ++ refusal.message

end Remark

/-- What the reader produces in some stretch of a document. -/
structure Yield where
  rows : Outline
  events : List Event
  remarks : List Remark

namespace Yield

/-- Nothing. -/
def empty : Yield :=
  ⟨[], [], []⟩

/-- What is produced first, then what is produced after it. -/
def append (a b : Yield) : Yield :=
  ⟨a.rows ++ b.rows, a.events ++ b.events, a.remarks ++ b.remarks⟩

instance : Append Yield :=
  ⟨append⟩

/-- A single row. -/
def row (r : Row) : Yield :=
  ⟨[r], [], []⟩

/-- Some remarks. -/
def noted (remarks : List Remark) : Yield :=
  ⟨[], [], remarks⟩

/-- A single call. -/
def called (call : Call) (place : Place) : Yield :=
  ⟨[], [⟨call, place⟩], []⟩

/-- What an imported document yields to the document that imports it at depth `d`: its rows stand
deeper, and its calls are made while the importing reader stands in the directive. -/
def imported (d : Nat) (y : Yield) : Yield :=
  ⟨y.rows.shift d, y.events.map fun e => { e with place := .directive }, y.remarks⟩

/-- A yield without its rows. -/
def withoutRows (y : Yield) : Yield :=
  { y with rows := [] }

end Yield

end Vitae
