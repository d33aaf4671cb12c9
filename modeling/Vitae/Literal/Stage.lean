import Vitae.Literal.Quotes
import Vitae.Node.Basic

/-!
# Stages of a literal

A raw literal passes through a row of stages. Each takes a text and gives a text for the next
stage, or a node, which no later stage touches. Any function can be a stage; three of them make up
the row of a document. Which texts name an instant is left to the caller.
-/

namespace Vitae

/-- A stage that a literal passes. It can ask which texts name an instant. -/
structure Stage where
  /-- What it makes of a text. -/
  apply : (Text → Option Instant) → Text → Literal
  /-- The texts that it remarks on, since they start as dates do but name no instant. -/
  unreadable : (Text → Option Instant) → Text → List Text

namespace Stage

/-- The keyword of a date. -/
def dateKeyword : Text := "date".toList

/-- The keyword of a link. -/
def urlKeyword : Text := "url".toList

section

variable (readInstant : Text → Option Instant)

/-- A text that is `date` and an instant becomes a date; every other text stays as it is. -/
def readDate (t : Text) : Literal :=
  match Literal.afterKeyword? dateKeyword t with
  | none => .text t
  | some rest =>
    match readInstant rest with
    | none => .text t
    | some i => .node (.ofInstant i)

/-- A text that starts with the keyword of a date, but names no instant. -/
def unreadableDate (t : Text) : List Text :=
  if (Literal.afterKeyword? dateKeyword t).any fun rest => (readInstant rest).isNone then [t]
  else []

end

/-- A text that is `url` and one or two words becomes a link; every other text stays as it is. A
single word is both the name and the target. -/
def readLink (t : Text) : Literal :=
  match Literal.afterKeyword? urlKeyword t with
  | none => .text t
  | some rest =>
    match Literal.quotedWords rest with
    | [target] => .node (.ofLink ⟨target, target⟩)
    | [name, target] => .node (.ofLink ⟨name, target⟩)
    | _ => .text t

/-- Removes the quotes around the text, and the blanks around it. -/
def unwrap : Stage where
  apply _ t := .text (Literal.unwrap t)
  unreadable _ _ := []

/-- Reads `date` and an instant. -/
def date : Stage where
  apply := readDate
  unreadable := unreadableDate

/-- Reads `url` and a link of one or two words. -/
def url : Stage where
  apply _ := readLink
  unreadable _ _ := []

/-- The stages of a document, unless others are asked for. -/
def standard : List Stage :=
  [.unwrap, .date, .url]

variable (readInstant : Text → Option Instant)

/-- What a row of stages makes of a literal. -/
def applyAll (stages : List Stage) (x : Literal) : Literal :=
  stages.foldl (fun x s => match x with | .text t => s.apply readInstant t | .node n => .node n) x

/-- The texts that the stages remark on, in order. -/
def unreadableDates : List Stage → Text → List Text
  | [], _ => []
  | s :: stages, t =>
    s.unreadable readInstant t ++
      match s.apply readInstant t with
      | .text t => unreadableDates stages t
      | .node _ => []

end Stage

end Vitae
