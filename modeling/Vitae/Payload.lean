import Vitae.Instant.Basic

/-!
# Payloads

What a serializer is given: the parts of a document as lists and as records with named fields, where
texts and instants are still told apart.
-/

namespace Vitae

/-- What a serializer is given. -/
inductive Payload where
  | absent
  | text (t : Text)
  | instant (i : Instant)
  | list (items : List Payload)
  | record (fields : List (Text × Payload))

/-- A record with the given fields. -/
def Payload.ofFields (fields : List (String × Payload)) : Payload :=
  .record (fields.map fun (name, p) => (name.toList, p))

end Vitae
