import Vitae.Reader.State
import Vitae.Settings
import Vitae.TextBlock

/-!
# Steps of the reader

The reader takes one character at a time. A block of prose is the exception: when its identifier is
complete, the reader looks ahead for the end of the body and passes over it in one step.
-/

namespace Vitae

/-- What is left of reading a document: what it yields, the last state, the position of the last
character looked at, and what made the reading halt, if anything did. -/
structure Reading where
  yield : Yield
  state : ReaderState
  position : Nat
  halt : Option Halt

/-- What a step leads to: the next state, how many further characters it has used, what it yields,
and what makes the reading halt, if anything does. -/
structure Outcome where
  state : ReaderState
  used : Nat
  yield : Yield
  halt : Option Halt

namespace Outcome

/-- The outcome that only changes the state. -/
def moved (s : ReaderState) : Outcome :=
  ⟨s, 0, .empty, none⟩

/-- An outcome, and then another step unless the reading has halted. -/
def andThen (o : Outcome) (next : ReaderState → Outcome) : Outcome :=
  match o.halt with
  | some _ => o
  | none =>
    let o' := next o.state
    ⟨o'.state, o.used + o'.used, o.yield ++ o'.yield, o'.halt⟩

end Outcome

namespace Reader

open Text

/-- The words that mean something between constructs. -/
def keywords : List Text :=
  ["section".toList, "text".toList, "end".toList, "label".toList, "url".toList, "date".toList,
    "@import".toList]

/-- The header that a keyword starts, if it starts one. -/
def header? (keyword : Text) : Option Header :=
  if keyword = "section".toList then some .title
  else if keyword = "label".toList then some .labelId
  else if keyword = "text".toList then some .blockId
  else if keyword = "@import".toList then some .directive
  else none

/-- The state after a complete keyword. The word `end` closes the innermost section, if one is
open; `url` and `date` mean nothing here. -/
def dispatch (s : ReaderState) (keyword : Text) : ReaderState :=
  match header? keyword with
  | some header => s.fill header
  | none =>
    if keyword = "end".toList then { s.seek with opened := s.opened.dropLast } else s.seek

/-- One more character between constructs. -/
def collect (s : ReaderState) (word : Text) (c : Char) : ReaderState :=
  if isBlank c then s
  else
    let word := word ++ [c]
    if word ∈ keywords then dispatch s word else { s with phase := .seeking word }

variable (env : Settings)

/-- The literal that a raw text becomes. -/
def literal (t : Text) : Literal :=
  Stage.applyAll env.readInstant env.stages (.text t)

/-- The remarks on a raw text that becomes a literal. -/
def literalRemarks (t : Text) : List Remark :=
  (Stage.unreadableDates env.readInstant env.stages t).map .unreadableDate

/-- A complete title opens a section. -/
def openSection (s : ReaderState) (title : Text) : Outcome where
  state := { s.seek with opened := s.opened ++ [title] }
  used := 0
  yield := .row ⟨s.depth, Node.sectionKind, .text title⟩
  halt := none

/-- A label with its identifier and its content. The content is read first. -/
def addLabel (s : ReaderState) (id content : Text) : Outcome where
  state := s.seek
  used := 0
  yield :=
    .noted (literalRemarks env content ++ literalRemarks env id) ++
      .row ⟨s.depth, Node.labelKind, .label (literal env id) (literal env content)⟩
  halt := none

/-- A block of prose, whose body is in what follows the identifier. -/
def addBlock (s : ReaderState) (id rest : Text) : Outcome :=
  let found := TextBlock.find rest
  let unterminated := if found.terminated then [] else [.unterminatedBlock (trim id)]
  { state := s.seek
    used := found.consumed
    yield :=
      .noted (unterminated ++ literalRemarks env id) ++
        .called (.render found.body) .blockBody ++
        .row ⟨s.depth, Node.blockKind,
          .block (literal env id) (trim found.body) (env.render found.body)⟩
    halt := none }

/-- The remarks on asking for a path. -/
def fetchRemarks (path : Text) : List Remark :=
  .readingImport path :: if env.library.isStandIn then [.emptyImport path] else []

/-- An import: the rows of the other document, if it can be read. The documents `opened` are being
read already, and `nested` reads a document of a path. -/
def addImport (opened : List Text) (nested : Text → Text → Reading) (s : ReaderState)
    (directive : Text) : Outcome :=
  let halted (y : Yield) (h : Halt) : Outcome := ⟨s.fill .directive, 0, y, some h⟩
  match Import.target env.root directive with
  | .error h => halted .empty h
  | .ok path =>
    if path ∈ opened then halted .empty (.refused (.cycle path))
    else
      let asked := Yield.noted (fetchRemarks env path) ++ .called (.fetch path) .directive
      match env.library.fetch path with
      | .error fault => halted asked (.refused (.unreadable path fault))
      | .ok source =>
        let inner := nested path source
        match inner.halt with
        | some h => halted (asked ++ (inner.yield.imported s.depth).withoutRows) h
        | none => ⟨s.seek, 0, asked ++ inner.yield.imported s.depth, none⟩

/-- A complete header, and what follows it in the document. -/
def complete (opened : List Text) (nested : Text → Text → Reading) (s : ReaderState)
    (header : Header) (t rest : Text) : Outcome :=
  match header with
  | .title => openSection s (trim t)
  | .labelId => .moved (s.fill (.labelContent t))
  | .labelContent id => addLabel env s id t
  | .blockId => addBlock env s t rest
  | .directive => addImport env opened nested s t

/-- One character, and what follows it in the document. -/
def step (opened : List Text) (nested : Text → Text → Reading) (s : ReaderState) (c : Char)
    (rest : Text) : Outcome :=
  match s.phase with
  | .seeking word => .moved (collect s word c)
  | .filling header buffer =>
    if c = header.stop then complete env opened nested s header buffer rest
    else .moved { s with phase := .filling header (buffer ++ [c]) }

/-- The end of the document completes a header that is being collected. -/
def finish (opened : List Text) (nested : Text → Text → Reading) (s : ReaderState) : Outcome :=
  match s.phase with
  | .seeking _ => .moved s
  | .filling header buffer => complete env opened nested s header buffer []

end Reader

end Vitae
