import Vitae.Proofs.Instant.Iso
import Vitae.Proofs.Instant.Offset
import Vitae.Proofs.Json.Layout
import Vitae.Proofs.Node.Shape
import Vitae.Proofs.Writer.Forest
import Vitae.Workbench

/-!
# Documents as data

Whatever document or item is given to a lawful serializer, its data is read back from its text, with
any indent (`Serializer.Lawful.decode?_write`). For trees that have been read nothing is lost on the
way to the data either: two of them are the same if their texts are (`Node.toJsonAll_inj`).

As data, the title of a section, the instant of a date and a plain identifier are all texts. They are
told apart because the kind of a node stands beside its value, and the nodes of a tree that has been
read are proper: their values fit their kinds. An instant is told by its text if its offset is one of
whole minutes below a day (`Instant.isoText_inj`); the reader of dates is expected to read no others
than whole minutes (`Instant.OffsetsInMinutes`).
-/

namespace Vitae

open Text

/-- The dates in the value have offsets that their texts tell exactly. -/
def Value.Exact (v : Value) : Prop :=
  ∀ i ∈ v.instants, Instant.WrittenExactly i.offset

/-! ### Records -/

namespace Node

theorem toJson_ne_text (n : Node) (t : Text) : n.payload.toJson ≠ .text t := by
  cases n
  simp [payload, Payload.ofFields, Payload.toJson]

theorem toJson_mk_inj {kind kind' : Text} {value value' : Value} {children children' : List Node}
    (h : (Node.mk kind value children).payload.toJson =
      (Node.mk kind' value' children').payload.toJson) :
    kind = kind' ∧ value.payload.toJson = value'.payload.toJson ∧
      Payload.toJsonAll (payloads children) = Payload.toJsonAll (payloads children') := by
  simpa [payload, Payload.ofFields, Payload.toJson, Payload.toJsonFields] using h

end Node

/-! ### Instants in payloads -/

theorem Literal.mem_instants {x : Literal} {i : Instant} (h : i ∈ x.instant?) :
    i ∈ x.payload.instants ∧ i ∈ x.contentPayload.instants := by
  unfold instant? at h
  split at h
  · cases h
    simp [payload, contentPayload, Node.payload, Value.payload, Payload.ofFields, Payload.instants,
      Payload.instantsFields]
  · cases h

theorem Value.mem_instants {v : Value} {i : Instant} (h : i ∈ v.instants) :
    i ∈ v.payload.instants := by
  cases v with
  | label id content =>
    rcases List.mem_append.1 h with h | h
    · have hid := (Literal.mem_instants (Option.mem_toList.1 h)).1
      simp [payload, Payload.ofFields, Payload.instants, Payload.instantsFields, hid]
    · have hcontent := (Literal.mem_instants (Option.mem_toList.1 h)).2
      simp [payload, Payload.ofFields, Payload.instants, Payload.instantsFields, hcontent]
  | block id written rendered =>
    have hid := (Literal.mem_instants (Option.mem_toList.1 h)).1
    simp [payload, Payload.ofFields, Payload.instants, Payload.instantsFields, hid]
  | _ => cases h

namespace Node

mutual

theorem mem_instants_payload {m : Node} {i : Instant} (hi : i ∈ m.value.instants) :
    ∀ n : Node, m ∈ n.walk → i ∈ n.payload.instants
  | .mk kind value children, hm => by
    simp only [payload, Payload.ofFields, List.map_cons, List.map_nil, Payload.instants,
      Payload.instantsFields, List.nil_append, List.append_nil]
    rcases List.mem_cons.1 hm with rfl | hm
    · exact List.mem_append_left _ (Value.mem_instants hi)
    · exact List.mem_append_right _ (mem_instants_payloads hi children hm)

theorem mem_instants_payloads {m : Node} {i : Instant} (hi : i ∈ m.value.instants) :
    ∀ ns : List Node, m ∈ walkAll ns → i ∈ Payload.instantsAll (payloads ns)
  | [], hm => by cases hm
  | n :: ns, hm => by
    rw [payloads, Payload.instantsAll]
    rcases List.mem_append.1 hm with hm | hm
    · exact List.mem_append_left _ (mem_instants_payload hi n hm)
    · exact List.mem_append_right _ (mem_instants_payloads hi ns hm)

end

end Node

theorem Payload.mem_instants_ofForest {ns : List Node} {m : Node} {i : Instant}
    (hm : m ∈ Node.walkAll ns) (hi : i ∈ m.value.instants) : i ∈ (ofForest ns).instants := by
  simpa [ofForest, ofFields, instants, instantsFields] using Node.mem_instants_payloads hi ns hm

/-! ### Literals -/

namespace Literal

variable {readInstant readInstant' : Text → Option Instant} {stop stop' : Char} {x y : Literal}

theorem toJson_inj (hx : x.Settled readInstant stop) (hy : y.Settled readInstant' stop')
    (hxi : ∀ i ∈ x.instant?, Instant.WrittenExactly i.offset)
    (hyi : ∀ i ∈ y.instant?, Instant.WrittenExactly i.offset)
    (h : x.payload.toJson = y.payload.toJson) : x = y := by
  cases hx with
  | text t =>
    cases hy with
    | text u => rw [Json.text.inj h]
    | date j => exact absurd h.symm (Node.toJson_ne_text _ t)
    | link m => exact absurd h.symm (Node.toJson_ne_text _ t)
  | date i =>
    cases hy with
    | text u => exact absurd h (Node.toJson_ne_text _ u)
    | date j =>
      obtain ⟨-, hvalue, -⟩ := Node.toJson_mk_inj h
      rw [Instant.isoText_inj (hxi i rfl) (hyi j rfl) (Json.text.inj hvalue)]
    | link m => exact absurd (Node.toJson_mk_inj h).1 (by decide)
  | link l =>
    cases hy with
    | text u => exact absurd h (Node.toJson_ne_text _ u)
    | date j => exact absurd (Node.toJson_mk_inj h).1 (by decide)
    | link m =>
      obtain ⟨-, hvalue, -⟩ := Node.toJson_mk_inj h
      cases l
      cases m
      simp_all [Value.payload, Payload.ofFields, Payload.toJson, Payload.toJsonFields]

/-- As the content of a label, a plain text is a record of two fields, and a node is one of
three. -/
theorem toJson_eq_of_contentPayload (h : x.contentPayload.toJson = y.contentPayload.toJson) :
    x.payload.toJson = y.payload.toJson := by
  cases x with
  | text t =>
    cases y with
    | text u =>
      simpa [contentPayload, payload, Payload.ofFields, Payload.toJson, Payload.toJsonFields] using h
    | node n =>
      cases n
      simp [contentPayload, Node.payload, Payload.ofFields, Payload.toJson,
        Payload.toJsonFields] at h
  | node n =>
    cases y with
    | text u =>
      cases n
      simp [contentPayload, Node.payload, Payload.ofFields, Payload.toJson,
        Payload.toJsonFields] at h
    | node m => exact h

end Literal

/-! ### Nodes -/

namespace Node

variable {readInstant readInstant' : Text → Option Instant}

/-- A proper node with dates that their texts tell exactly. -/
def Lossless (readInstant : Text → Option Instant) (n : Node) : Prop :=
  n.Proper readInstant ∧ n.value.Exact

theorem value_inj {n m : Node} (hn : n.Lossless readInstant) (hm : m.Lossless readInstant')
    (hkind : n.kind = m.kind) (h : n.value.payload.toJson = m.value.payload.toJson) :
    n.value = m.value := by
  obtain ⟨hn, hni⟩ := hn
  obtain ⟨hm, hmi⟩ := hm
  cases hn with
  | heading title =>
    cases hm with
    | heading title' => rw [value, value, Json.text.inj h]
    | label => exact absurd (show sectionKind = labelKind from hkind) (by decide)
    | block => exact absurd (show sectionKind = blockKind from hkind) (by decide)
  | label id content settledId settledContent =>
    cases hm with
    | heading => exact absurd (show labelKind = sectionKind from hkind) (by decide)
    | label id' content' settledId' settledContent' =>
      obtain ⟨hid, hcontent⟩ : id.payload.toJson = id'.payload.toJson ∧
          content.contentPayload.toJson = content'.contentPayload.toJson := by
        simpa [value, Value.payload, Payload.ofFields, Payload.toJson, Payload.toJsonFields] using h
      simp only [Value.Exact, value, Value.instants, List.forall_mem_append,
        Option.mem_toList] at hni hmi
      rw [value, value, Literal.toJson_inj settledId settledId' hni.1 hmi.1 hid,
        Literal.toJson_inj settledContent settledContent' hni.2 hmi.2
          (Literal.toJson_eq_of_contentPayload hcontent)]
    | block => exact absurd (show labelKind = blockKind from hkind) (by decide)
  | block id written rendered settledId =>
    cases hm with
    | heading => exact absurd (show blockKind = sectionKind from hkind) (by decide)
    | label => exact absurd (show blockKind = labelKind from hkind) (by decide)
    | block id' written' rendered' settledId' =>
      obtain ⟨hid, rfl, rfl⟩ : id.payload.toJson = id'.payload.toJson ∧ written = written' ∧
          rendered = rendered' := by
        simpa [value, Value.payload, Payload.ofFields, Payload.toJson, Payload.toJsonFields] using h
      simp only [Value.Exact, value, Value.instants, Option.mem_toList] at hni hmi
      rw [value, value, Literal.toJson_inj settledId settledId' hni hmi hid]

mutual

theorem toJson_inj : ∀ n m : Node, (∀ k ∈ n.walk, k.Lossless readInstant) →
    (∀ k ∈ m.walk, k.Lossless readInstant') → n.payload.toJson = m.payload.toJson → n = m
  | .mk kind value children, .mk kind' value' children', hn, hm, h => by
    rw [walk, List.forall_mem_cons] at hn hm
    obtain ⟨rfl, hvalue, hchildren⟩ := toJson_mk_inj h
    obtain rfl : value = value' := value_inj hn.1 hm.1 rfl hvalue
    rw [toJsonAll_inj children children' hn.2 hm.2 hchildren]

theorem toJsonAll_inj : ∀ ns ms : List Node, (∀ k ∈ walkAll ns, k.Lossless readInstant) →
    (∀ k ∈ walkAll ms, k.Lossless readInstant') →
      Payload.toJsonAll (payloads ns) = Payload.toJsonAll (payloads ms) → ns = ms
  | [], [], _, _, _ => rfl
  | [], _ :: _, _, _, h => by simp [payloads, Payload.toJsonAll] at h
  | _ :: _, [], _, _, h => by simp [payloads, Payload.toJsonAll] at h
  | n :: ns, m :: ms, hns, hms, h => by
    rw [walkAll, List.forall_mem_append] at hns hms
    obtain ⟨hfirst, hrest⟩ := List.cons.inj h
    rw [toJson_inj n m hns.1 hms.1 hfirst, toJsonAll_inj ns ms hns.2 hms.2 hrest]

end

end Node

/-! ### Trees that have been read -/

namespace Reader

open Grammar

variable {env : Settings}

theorem exists_read_of_instant? (hstages : env.stages = Stage.standard) {raw : Text} {i : Instant}
    (h : i ∈ (Reader.literal env raw).instant?) : ∃ t, env.readInstant t = some i := by
  have hlink (t : Text) : i ∉ (Stage.readLink t).instant? := by
    unfold Stage.readLink
    repeat' split
    all_goals rintro ⟨⟩
  rw [Writer.literal_standard hstages] at h
  unfold Stage.readDate at h
  cases hkeyword : Literal.afterKeyword? Stage.dateKeyword (Literal.unwrap raw) with
  | none =>
    simp only [hkeyword] at h
    exact absurd h (hlink _)
  | some rest =>
    cases hread : env.readInstant rest with
    | none =>
      simp only [hkeyword, hread] at h
      exact absurd h (hlink _)
    | some j =>
      simp only [hkeyword, hread] at h
      cases h
      exact ⟨rest, hread⟩

theorem exists_read_of_attainable (hstages : env.stages = Stage.standard) {n : Node}
    (hn : Attainable env n) :
    ∀ m ∈ n.walk, ∀ i ∈ m.value.instants, ∃ t, env.readInstant t = some i := by
  induction hn with
  | label id content =>
    refine List.forall_mem_singleton.2 fun i hi => ?_
    rcases List.mem_append.1 hi with hi | hi
    · exact exists_read_of_instant? hstages (Option.mem_toList.1 hi)
    · exact exists_read_of_instant? hstages (Option.mem_toList.1 hi)
  | block id body =>
    refine List.forall_mem_singleton.2 fun i hi => ?_
    exact exists_read_of_instant? hstages (Option.mem_toList.1 hi)
  | heading title children trimmed line inner ih =>
    refine List.forall_mem_cons.2 ⟨List.forall_mem_nil _, fun m hm => ?_⟩
    obtain ⟨child, hchild, hm⟩ := Node.mem_walkAll.1 hm
    exact ih child hchild m hm

theorem lossless_of_read (hstages : env.stages = Stage.standard)
    (hminutes : Instant.OffsetsInMinutes env.readInstant) (opened : List Text) (source : Text)
    (hday : (Payload.ofForest (env.read opened source).tree).WithinDay) :
    ∀ n ∈ Node.walkAll (env.read opened source).tree, n.Lossless env.readInstant := by
  intro n hn
  have hattainable := attainable_tree env opened source
  refine ⟨proper_of_attainable_all hstages _ hattainable hn, fun i hi s hs => ⟨?_, ?_⟩⟩
  · obtain ⟨m, hm, hwalk⟩ := Node.mem_walkAll.1 hn
    obtain ⟨t, ht⟩ := exists_read_of_attainable hstages (hattainable m hm) n hwalk i hi
    exact hminutes ht s hs
  · exact hday i (Payload.mem_instants_ofForest hn hi) s hs

end Reader

namespace Serializer

open Reader

/-- **Nothing is lost in data, with any indent.** The text that a lawful serializer writes for a
document, a node or an item of a workbench is read back as the data that it makes of them, as long as
the dates in them have offsets below a day. Two trees that have been read from whatever sources are
the same if they have the same text with some indent, in their kinds, values, identifiers and
children, provided that offsets are read in whole minutes. -/
theorem write_lossless {S : Serializer} (hS : S.Lawful) (indent : Option Nat) :
    (∀ ns, (Payload.ofForest ns).WithinDay →
      Json.decode? (S.write indent (.ofForest ns)) = some (S.dump (.ofForest ns))) ∧
    (∀ n : Node, n.payload.WithinDay →
      Json.decode? (S.write indent n.payload) = some (S.dump n.payload)) ∧
    (∀ (w : Workbench) i, (w.payload i).WithinDay →
      Json.decode? (S.write indent (w.payload i)) = some (S.dump (w.payload i))) ∧
    ∀ (env env' : Settings) (opened opened' : List Text) (source source' : Text),
      env.stages = Stage.standard → env'.stages = Stage.standard →
      Instant.OffsetsInMinutes env.readInstant → Instant.OffsetsInMinutes env'.readInstant →
      let tree := (env.read opened source).tree
      let tree' := (env'.read opened' source').tree
      (Payload.ofForest tree).WithinDay → (Payload.ofForest tree').WithinDay →
        S.write indent (.ofForest tree) = S.write indent (.ofForest tree') → tree = tree' := by
  refine ⟨fun ns => hS.decode?_write indent, fun n => hS.decode?_write indent,
    fun w i => hS.decode?_write indent, ?_⟩
  intro env env' opened opened' source source' hstages hstages' hminutes hminutes' tree tree'
    hday hday' h
  have hdata : (Payload.ofForest tree).toJson = (Payload.ofForest tree').toJson := by
    have hdecoded := Json.decode?_of_written (hS.write indent _ hday)
    rw [h, Json.decode?_of_written (hS.write indent _ hday')] at hdecoded
    exact (Option.some.inj hdecoded).symm
  have hnodes : Payload.toJsonAll (Node.payloads tree) =
      Payload.toJsonAll (Node.payloads tree') := by
    simpa [Payload.ofForest, Payload.ofFields, Payload.toJson, Payload.toJsonFields] using hdata
  exact Node.toJsonAll_inj tree tree' (lossless_of_read hstages hminutes opened source hday)
    (lossless_of_read hstages' hminutes' opened' source' hday') hnodes

/-- A label with a date behind universal time, in two spellings. -/
theorem write_lossless_label :
    let env := Settings.standard (Instant.read? 2026) id
    let tree := (env.read [] "label On: date 2020-02-01 10:30 -01:30".toList).tree
    let tree' := (env.read [] "label \"On\":date 2020-02-01 103000-0130".toList).tree
    standard.Lawful ∧ Instant.OffsetsInMinutes env.readInstant ∧
      (Payload.ofForest tree).WithinDay ∧ (Payload.ofForest tree').WithinDay ∧
      standard.write none (.ofForest tree) = standard.write none (.ofForest tree') ∧
      tree = tree' := by
  intro env tree tree'
  have hminutes : Instant.OffsetsInMinutes env.readInstant := Instant.offsetsInMinutes_read? 2026
  have hday : (Payload.ofForest tree).WithinDay := by
    unfold Payload.WithinDay Instant.WithinDay
    decide +kernel
  have hday' : (Payload.ofForest tree').WithinDay := by
    unfold Payload.WithinDay Instant.WithinDay
    decide +kernel
  have h : standard.write none (.ofForest tree) = standard.write none (.ofForest tree') := by
    decide +kernel
  obtain ⟨-, -, -, hinj⟩ := write_lossless lawful_standard none
  exact ⟨lawful_standard, hminutes, hday, hday', h,
    hinj env env [] [] _ _ rfl rfl hminutes hminutes hday hday' h⟩

end Serializer

end Vitae
