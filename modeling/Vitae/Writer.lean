import Vitae.Literal.Stage
import Vitae.Node.Display
import Vitae.TextBlock

/-!
# Writing documents

`Writer.document` writes a forest as a document: sections with their contents indented, labels in a
line, and prose between its identifier and a closing line. Prose keeps its lines as they are. A node
whose value does not fit its kind cannot be written.
-/

namespace Vitae

/-- Why a forest cannot be written. -/
inductive WriteFault
  /-- A node of this kind is no statement. -/
  | noStatement (kind : Text)
  /-- A node of this kind is no literal. -/
  | noLiteral (kind : Text)
  /-- A date has no instant. -/
  | noInstant
  /-- The offset of an instant is a day or more. -/
  | wideOffset
  deriving DecidableEq

namespace WriteFault

open Text

/-- The wording of a fault. -/
def message : WriteFault → Text
  | .noStatement kind => "cannot render ".toList ++ quoted kind ++ " node as a statement".toList
  | .noLiteral kind => "cannot render ".toList ++ quoted kind ++ " node as a literal".toList
  | .noInstant => "a date has no instant".toList
  | .wideOffset =>
    "offset must be a timedelta strictly between -timedelta(hours=24) and timedelta(hours=24).".toList

end WriteFault

namespace Writer

open Text

/-! ### Literals -/

/-- Whether a text would not read back as itself without quotes: it has blanks at an end, it is in
quotes already, or it starts with the keyword of a date or a link. -/
def needsQuotes (t : Text) : Bool :=
  t ≠ trim t || (2 ≤ t.length && t.head? == some '"' && t.getLast? == some '"') ||
    (words t).head?.any fun word => word = Stage.dateKeyword || word = Stage.urlKeyword

/-- A text between double quotes. -/
def inQuotes (t : Text) : Text :=
  '"' :: t ++ ['"']

/-- A plain text as a literal. -/
def textLiteral (t : Text) : Text :=
  if needsQuotes t then inQuotes t else t

/-- A word of a link, in quotes if it is empty or holds a blank. -/
def linkWord (t : Text) : Text :=
  if t.isEmpty || t.any isBlank then inQuotes t else t

/-- A link as a literal; a name that is the target is left out. -/
def linkLiteral (l : Link) : Text :=
  Stage.urlKeyword ++ ' ' ::
    if l.name = l.target then linkWord l.target else linkWord l.name ++ ' ' :: linkWord l.target

/-- An instant as a literal. -/
def dateLiteral (i : Instant) : Except WriteFault Text :=
  if i.offset.any fun s => 86400 ≤ s.natAbs then .error .wideOffset
  else .ok (Stage.dateKeyword ++ ' ' :: i.literalText)

/-- A literal as it stands in a document. -/
def literal : Literal → Except WriteFault Text
  | .text t => .ok (textLiteral t)
  | .node (.mk kind value _) =>
    if kind = Node.dateKind then
      match value with
      | .instant i => dateLiteral i
      | _ => .error .noInstant
    else
      match value with
      | .link l => if kind = Node.linkKind then .ok (linkLiteral l) else .error (.noLiteral kind)
      | _ => .error (.noLiteral kind)

/-! ### Statements -/

/-- The blanks before a line at a depth. -/
def indent (depth : Nat) : Text :=
  List.replicate (2 * depth) ' '

/-- The line of a label. -/
def labelLine (depth : Nat) (id content : Literal) : Except WriteFault Text := do
  return indent depth ++ "label ".toList ++ (← literal id) ++ ':' :: (← literal content)

/-- The lines of a block of prose. The body stands as it is. -/
def blockLines (depth : Nat) (id : Literal) (written : Text) : Except WriteFault (List Text) := do
  let head := indent depth ++ "text ".toList ++ (← literal id) ++ [':']
  return head :: lines written ++ [indent depth ++ TextBlock.terminator]

mutual

/-- The lines of a node at a depth. -/
def statement (depth : Nat) : Node → Except WriteFault (List Text)
  | .mk kind value children =>
    if kind = Node.sectionKind then do
      let inner ← statements (depth + 1) children
      return (indent depth ++ "section ".toList ++ value.titleText) :: inner ++
        [indent depth ++ "end".toList]
    else
      match value with
      | .label id content =>
        if kind = Node.labelKind then do return [← labelLine depth id content]
        else .error (.noStatement kind)
      | .block id written _ =>
        if kind = Node.blockKind then blockLines depth id written
        else .error (.noStatement kind)
      | _ => .error (.noStatement kind)

/-- The lines of a forest at a depth. -/
def statements (depth : Nat) : List Node → Except WriteFault (List Text)
  | [] => .ok []
  | n :: ns => do return (← statement depth n) ++ (← statements depth ns)

end

/-- The document of a forest. -/
def document (ns : List Node) : Except WriteFault Text := do
  return joinWith ['\n'] (← statements 0 ns) ++ ['\n']

end Writer

end Vitae
