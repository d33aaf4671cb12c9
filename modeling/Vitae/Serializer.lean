import Vitae.Instant.Written
import Vitae.Json
import Vitae.Payload

/-!
# Serializers

A serializer is given a payload and makes data of it, or writes it as a text.
`Serializer.standard` writes an instant in its ISO form, and a text is the layout of the data.
-/

namespace Vitae

/-- Two ways out for a payload: as data, and as a text with some indent or without any space. -/
structure Serializer where
  dump : Payload → Json
  write : Option Nat → Payload → Text

mutual

/-- A payload as data. -/
def Payload.toJson : Payload → Json
  | .absent => .null
  | .text t => .text t
  | .instant i => .text i.isoText
  | .list items => .list (Payload.toJsonAll items)
  | .record fields => .record (Payload.toJsonFields fields)

/-- The items of a list as data. -/
def Payload.toJsonAll : List Payload → List Json
  | [] => []
  | p :: ps => p.toJson :: Payload.toJsonAll ps

/-- The fields of a record as data. -/
def Payload.toJsonFields : List (Text × Payload) → List (Text × Json)
  | [] => []
  | (name, p) :: fields => (name, p.toJson) :: Payload.toJsonFields fields

end

/-- The serializer of the program. -/
def Serializer.standard : Serializer where
  dump := Payload.toJson
  write indent p := p.toJson.layout indent

end Vitae
