import Vitae.Node.Basic
import Vitae.Payload

/-!
# Nodes as payloads

Every node is a record of its kind, its value and its children. The plain content of a label is a
record of its own, so that it cannot be taken for an identifier.
-/

namespace Vitae

mutual

/-- A node as a payload. -/
def Node.payload : Node → Payload
  | .mk kind value children =>
    .ofFields [("type", .text kind), ("value", value.payload),
      ("children", .list (Node.payloads children))]

/-- The nodes of a forest as payloads. -/
def Node.payloads : List Node → List Payload
  | [] => []
  | n :: ns => n.payload :: Node.payloads ns

/-- A value as a payload. -/
def Value.payload : Value → Payload
  | .absent => .absent
  | .text t => .text t
  | .instant i => .instant i
  | .link l => .ofFields [("alias", .text l.name), ("link", .text l.target)]
  | .label id content => .ofFields [("id", id.payload), ("value", content.contentPayload)]
  | .block id written rendered =>
    .ofFields [("id", id.payload), ("original", .text written), ("transformed", .text rendered)]

/-- An identifier as a payload. -/
def Literal.payload : Literal → Payload
  | .text t => .text t
  | .node n => n.payload

/-- The content of a label as a payload. -/
def Literal.contentPayload : Literal → Payload
  | .text t => .ofFields [("type", .text "text".toList), ("value", .text t)]
  | .node n => n.payload

end

/-- A document as a payload. -/
def Payload.ofForest (ns : List Node) : Payload :=
  .ofFields [("type", .text "root".toList), ("children", .list (Node.payloads ns))]

end Vitae
