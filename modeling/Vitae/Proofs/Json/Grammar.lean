import Mathlib.Data.List.Forall2
import Vitae.Proofs.Json.Decoder
import Vitae.Serializer

/-!
# The grammar of data

`Json.Written` says which texts stand for a payload. Gaps are free between all marks, and so are the
escapes of a quoted text; only the form of an instant is fixed. What is relied on of a serializer is
that it writes such texts, whatever the indent, and that the data it makes follows the payload part
by part (`Serializer.Lawful`). How the texts and the data are made is left open.
-/

namespace Vitae

open Text

/-! ### Offsets -/

mutual

/-- The instants in a payload. -/
def Payload.instants : Payload → List Instant
  | .absent => []
  | .text _ => []
  | .instant i => [i]
  | .list items => Payload.instantsAll items
  | .record fields => Payload.instantsFields fields

/-- The instants in the items of a list. -/
def Payload.instantsAll : List Payload → List Instant
  | [] => []
  | p :: ps => p.instants ++ Payload.instantsAll ps

/-- The instants in the fields of a record. -/
def Payload.instantsFields : List (Text × Payload) → List Instant
  | [] => []
  | (_, p) :: fields => p.instants ++ Payload.instantsFields fields

end

/-- The offset of the instant is below a day, if it has one. -/
def Instant.WithinDay (i : Instant) : Prop :=
  ∀ seconds ∈ i.offset, seconds.natAbs < 86400

/-- The instants in a payload have offsets below a day. -/
def Payload.WithinDay (p : Payload) : Prop :=
  ∀ i ∈ p.instants, i.WithinDay

namespace Json

/-! ### Texts -/

/-- A stretch of blanks between tokens. -/
def Gap (t : Text) : Prop :=
  ∀ c ∈ t, isGap c = true

/-- What may stand for a character inside a quoted text: itself, or an escape. -/
inductive CharForm (c : Char) : Text → Prop
  | plain (quote : c ≠ '"') (backslash : c ≠ '\\') (control : ¬c.toNat < 0x20) : CharForm c [c]
  | short {e : Char} (escaped : escaped? e = some c) : CharForm c ['\\', e]
  | code {d₁ d₂ d₃ d₄ : Char} {n₁ n₂ n₃ n₄ : Nat} (digit₁ : hexValue? d₁ = some n₁)
    (digit₂ : hexValue? d₂ = some n₂) (digit₃ : hexValue? d₃ = some n₃)
    (digit₄ : hexValue? d₄ = some n₄) (value : [n₁, n₂, n₃, n₄].foldl (16 * · + ·) 0 = c.toNat) :
    CharForm c ['\\', 'u', d₁, d₂, d₃, d₄]

/-- A text between quotes. -/
inductive Quoted : Text → Text → Prop
  | mk {t : Text} {forms : List Text} (chars : List.Forall₂ CharForm t forms) :
    Quoted t ('"' :: (forms.flatten ++ ['"']))

/-! ### Lists and records -/

/-- An entry with gaps around it. -/
inductive Padded : Text → Text → Prop
  | mk {entry before after : Text} (gapBefore : Gap before) (gapAfter : Gap after) :
    Padded entry (before ++ (entry ++ after))

/-- Entries in brackets, with commas between them. -/
inductive Bracketed (left right : Char) : List Text → Text → Prop
  | mk {entries padded : List Text} {gap : Text} (h : List.Forall₂ Padded entries padded)
    (gapBehind : Gap gap) :
    Bracketed left right entries (left :: (joinWith [','] padded ++ (gap ++ [right])))

mutual

/-- The texts that stand for a payload. -/
inductive Written : Payload → Text → Prop
  | absent : Written .absent "null".toList
  | text {t w : Text} (quoted : Quoted t w) : Written (.text t) w
  | instant {i : Instant} {w : Text} (quoted : Quoted i.isoText w) : Written (.instant i) w
  | list {items : List Payload} {entries : List Text} {w : Text}
    (written : WrittenItems items entries) (brackets : Bracketed '[' ']' entries w) :
    Written (.list items) w
  | record {fields : List (Text × Payload)} {entries : List Text} {w : Text}
    (written : WrittenFields fields entries) (brackets : Bracketed '\x7b' '\x7d' entries w) :
    Written (.record fields) w

/-- The texts that stand for the items of a list. -/
inductive WrittenItems : List Payload → List Text → Prop
  | nil : WrittenItems [] []
  | cons {p : Payload} {ps : List Payload} {w : Text} {ws : List Text} (first : Written p w)
    (rest : WrittenItems ps ws) : WrittenItems (p :: ps) (w :: ws)

/-- The texts that stand for the fields of a record: the name, a colon and the value. -/
inductive WrittenFields : List (Text × Payload) → List Text → Prop
  | nil : WrittenFields [] []
  | cons {name : Text} {p : Payload} {fields : List (Text × Payload)} {n before after w : Text}
    {ws : List Text} (quoted : Quoted name n) (gapBefore : Gap before) (gapAfter : Gap after)
    (value : Written p w) (rest : WrittenFields fields ws) :
    WrittenFields ((name, p) :: fields) ((n ++ (before ++ ':' :: (after ++ w))) :: ws)

end

end Json

/-- What is relied on of a serializer, for payloads with offsets below a day: the data keeps lists
and records, with the fields in their order, and an instant becomes its ISO form; the text is one
that stands for the payload. -/
structure Serializer.Lawful (S : Serializer) : Prop where
  dump_absent : S.dump .absent = .null
  dump_text : ∀ t, S.dump (.text t) = .text t
  dump_instant : ∀ i, i.WithinDay → S.dump (.instant i) = .text i.isoText
  dump_list : ∀ items, (Payload.list items).WithinDay →
    S.dump (.list items) = .list (items.map S.dump)
  dump_record : ∀ fields, (Payload.record fields).WithinDay →
    S.dump (.record fields) = .record (fields.map fun field => (field.1, S.dump field.2))
  write : ∀ indent p, p.WithinDay → Json.Written p (S.write indent p)

end Vitae
