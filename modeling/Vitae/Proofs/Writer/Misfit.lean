import Vitae.Proofs.Node.Shape

/-!
# Trees that cannot be written

A tree made by hand can hold nodes that no document can say. The writer visits the nodes that it
reaches through sections (`Writer.Reached`) and needs each of them to be expressible
(`Node.Expressible`): a section, or a label or a block of prose with a value of its kind and with
literals that are texts, dates or links. If all of them are, it writes the tree. If one is not, it
refuses the tree (`Writer.attempted_statements`). What the dates hold is another matter: `Node.Dated`
says that they hold instants that can be written.

Trees that have been read are always written, since all their nodes are proper.
-/

namespace Vitae

mutual

/-- A node with all nodes below it and all that stand in values. -/
def Node.parts : Node → List Node
  | .mk kind value children => .mk kind value children :: (value.parts ++ Node.partsAll children)

/-- The nodes of a forest with all nodes below them and all that stand in values. -/
def Node.partsAll : List Node → List Node
  | [] => []
  | n :: ns => n.parts ++ Node.partsAll ns

/-- The nodes in a value, with all that stand below or in them. -/
def Value.parts : Value → List Node
  | .label id content => id.parts ++ content.parts
  | .block id _ _ => id.parts
  | .absent | .text _ | .instant _ | .link _ => []

@[inherit_doc Value.parts] def Literal.parts : Literal → List Node
  | .text _ => []
  | .node n => n.parts

end

/-- The literal is a text, a date, or a link that has its value. -/
def Literal.Sayable : Literal → Prop
  | .text _ => True
  | .node n => n.kind = Node.dateKind ∨ (n.kind = Node.linkKind ∧ ∃ l, n.value = .link l)

namespace Node

/-- Every date among the nodes holds an instant, and the offsets of instants are whole minutes below
a day. -/
structure Dated (nodes : List Node) : Prop where
  dates : ∀ n ∈ nodes, n.kind = dateKind → ∃ i, n.value = .instant i
  offsets : ∀ n ∈ nodes, ∀ i, n.value = .instant i →
    ∀ seconds ∈ i.offset, 60 ∣ seconds ∧ seconds.natAbs < 86400

theorem Dated.subset {nodes part : List Node} (h : Dated nodes) (hpart : part ⊆ nodes) :
    Dated part where
  dates n hn := h.dates n (hpart hn)
  offsets n hn := h.offsets n (hpart hn)

/-- A node that can stand in a document as a statement. -/
inductive Expressible : Node → Prop
  | heading (value : Value) (children : List Node) : Expressible (.mk sectionKind value children)
  | label (id content : Literal) (children : List Node) (sayableId : id.Sayable)
    (sayableContent : content.Sayable) :
    Expressible (.mk labelKind (.label id content) children)
  | block (id : Literal) (written rendered : Text) (children : List Node)
    (sayableId : id.Sayable) : Expressible (.mk blockKind (.block id written rendered) children)

theorem not_expressible {kind : Text} {value : Value} {children : List Node}
    (hsection : kind ≠ sectionKind)
    (hlabel : ∀ id content, kind = labelKind → value ≠ .label id content)
    (hblock : ∀ id written rendered, kind = blockKind → value ≠ .block id written rendered) :
    ¬Expressible (.mk kind value children) := by
  rintro ⟨⟩
  · exact hsection rfl
  · exact hlabel _ _ rfl rfl
  · exact hblock _ _ _ rfl rfl

end Node

namespace Writer

open Node

/-- The node is reached from the forest through sections. -/
inductive Reached (n : Node) : List Node → Prop
  | here {ns : List Node} (mem : n ∈ ns) : Reached n ns
  | through {ns : List Node} {m : Node} (mem : m ∈ ns) (isSection : m.kind = sectionKind)
    (inner : Reached n m.children) : Reached n ns

/-- The forest has a node that the writer reaches and that cannot stand in a document. -/
def HasMisfit (ns : List Node) : Prop :=
  ∃ n, Reached n ns ∧ ¬n.Expressible

/-- An attempt to write something, which fails if it has a misfit and only then. -/
inductive Attempted {α : Type} (misfit : Prop) : Except WriteFault α → Prop
  | written (a : α) (fits : ¬misfit) : Attempted misfit (.ok a)
  | noStatement (kind : Text) (unfit : misfit) : Attempted misfit (.error (.noStatement kind))
  | noLiteral (kind : Text) (unfit : misfit) : Attempted misfit (.error (.noLiteral kind))

variable {α β : Type} {p q : Prop} {n m : Node} {ns : List Node}

theorem Attempted.congr {r : Except WriteFault α} (h : Attempted p r) (hpq : p ↔ q) :
    Attempted q r :=
  propext hpq ▸ h

/-- Of two attempts in a row the first misfit counts. -/
theorem Attempted.bind {r : Except WriteFault α} {f : α → Except WriteFault β}
    (h : Attempted p r) (hf : ∀ a, Attempted q (f a)) : Attempted (p ∨ q) (r >>= f) := by
  cases h with
  | noStatement kind unfit => exact .noStatement kind (.inl unfit)
  | noLiteral kind unfit => exact .noLiteral kind (.inl unfit)
  | written a fits => exact (hf a).congr (by tauto)

theorem Attempted.map {r : Except WriteFault α} (h : Attempted p r) (f : α → β) :
    Attempted p (r >>= fun a => pure (f a)) :=
  (h.bind fun a => .written (f a) not_false).congr (or_iff_left not_false)

/-- What has a misfit is refused, and nothing else. -/
theorem Attempted.refused_iff {r : Except WriteFault α} (h : Attempted p r) :
    (∃ kind, r = .error (.noStatement kind) ∨ r = .error (.noLiteral kind)) ↔ p := by
  cases h with
  | written a fits => simp [fits]
  | noStatement kind unfit => exact ⟨fun _ => unfit, fun _ => ⟨kind, .inl rfl⟩⟩
  | noLiteral kind unfit => exact ⟨fun _ => unfit, fun _ => ⟨kind, .inr rfl⟩⟩

theorem Attempted.exists_ok {r : Except WriteFault α} (h : Attempted p r) (fits : ¬p) :
    ∃ a, r = .ok a := by
  cases h with
  | written a => exact ⟨a, rfl⟩
  | noStatement kind unfit => exact absurd unfit fits
  | noLiteral kind unfit => exact absurd unfit fits

/-! ### Literals -/

/-- A literal is written unless it is a node that is no date and no link. -/
theorem attempted_literal (x : Literal) (hdated : Dated x.parts) :
    Attempted (¬x.Sayable) (Writer.literal x) := by
  cases x with
  | text t => exact .written _ (not_not_intro trivial)
  | node n =>
    obtain ⟨kind, value, children⟩ := n
    have hhere : .mk kind value children ∈ (Literal.node (.mk kind value children)).parts :=
      List.mem_cons_self
    by_cases hdate : kind = dateKind
    · obtain ⟨i, hi⟩ := hdated.dates _ hhere hdate
      obtain rfl : value = .instant i := hi
      have hoffset : ¬(i.offset.any fun s => 86400 ≤ s.natAbs) = true := by
        intro hwide
        obtain ⟨s, hs, hle⟩ := (Option.any_eq_true _ _).1 hwide
        have hlt := (hdated.offsets _ hhere i rfl s hs).2
        simp only [decide_eq_true_eq] at hle
        omega
      have hwritten : Writer.literal (.node (.mk kind (.instant i) children)) =
          .ok (Stage.dateKeyword ++ ' ' :: i.literalText) := by
        simp only [Writer.literal, if_pos hdate, dateLiteral, if_neg hoffset]
      rw [hwritten]
      exact .written _ (not_not_intro (.inl hdate))
    · have hrefused (hlink : ∀ l, kind = linkKind → value ≠ .link l) :
          ¬(Literal.node (.mk kind value children)).Sayable := by
        rintro (hkind | ⟨hkind, l, hl⟩)
        · exact hdate hkind
        · exact hlink l hkind hl
      simp only [Writer.literal, if_neg hdate]
      cases value with
      | link l =>
        simp only
        split_ifs with hlink
        · exact .written _ (not_not_intro (.inr ⟨hlink, l, rfl⟩))
        · exact .noLiteral kind (hrefused fun _ hkind => absurd hkind hlink)
      | absent | text | instant | label | block =>
        exact .noLiteral kind (hrefused (by simp))

/-! ### Statements -/

theorem reached_singleton :
    Reached n [m] ↔ n = m ∨ (m.kind = sectionKind ∧ Reached n m.children) := by
  constructor
  · rintro (⟨mem⟩ | ⟨mem, isSection, inner⟩) <;> obtain rfl := List.mem_singleton.1 mem
    · exact .inl rfl
    · exact .inr ⟨isSection, inner⟩
  · rintro (rfl | ⟨isSection, inner⟩)
    · exact .here List.mem_cons_self
    · exact .through List.mem_cons_self isSection inner

theorem reached_cons : Reached n (m :: ns) ↔ Reached n [m] ∨ Reached n ns := by
  constructor
  · rintro (⟨mem⟩ | ⟨mem, isSection, inner⟩) <;> rcases List.mem_cons.1 mem with rfl | mem
    · exact .inl (.here List.mem_cons_self)
    · exact .inr (.here mem)
    · exact .inl (.through List.mem_cons_self isSection inner)
    · exact .inr (.through mem isSection inner)
  · rintro (h | h)
    · rcases reached_singleton.1 h with rfl | ⟨isSection, inner⟩
      · exact .here List.mem_cons_self
      · exact .through List.mem_cons_self isSection inner
    · cases h with
      | here mem => exact .here (List.mem_cons_of_mem m mem)
      | through mem isSection inner => exact .through (List.mem_cons_of_mem m mem) isSection inner

theorem hasMisfit_nil : ¬HasMisfit [] := by
  rintro ⟨n, ⟨mem⟩ | ⟨mem, -, -⟩, -⟩ <;> cases mem

theorem hasMisfit_cons : HasMisfit (m :: ns) ↔ HasMisfit [m] ∨ HasMisfit ns := by
  constructor
  · rintro ⟨n, hreached, hn⟩
    exact (reached_cons.1 hreached).imp (fun h => ⟨n, h, hn⟩) fun h => ⟨n, h, hn⟩
  · rintro (⟨n, hreached, hn⟩ | ⟨n, hreached, hn⟩)
    · exact ⟨n, reached_cons.2 (.inl hreached), hn⟩
    · exact ⟨n, reached_cons.2 (.inr hreached), hn⟩

/-- In a section only the nodes below it can be misfits. -/
theorem hasMisfit_section {value : Value} {children : List Node} :
    HasMisfit [.mk sectionKind value children] ↔ HasMisfit children := by
  constructor
  · rintro ⟨n, hreached, hn⟩
    rcases reached_singleton.1 hreached with rfl | ⟨-, inner⟩
    · exact absurd (.heading value children) hn
    · exact ⟨n, inner, hn⟩
  · rintro ⟨n, inner, hn⟩
    exact ⟨n, .through List.mem_cons_self rfl inner, hn⟩

/-- A node that is no section is its only misfit, if it is one. -/
theorem hasMisfit_leaf (h : m.kind ≠ sectionKind) : HasMisfit [m] ↔ ¬m.Expressible := by
  constructor
  · rintro ⟨n, hreached, hn⟩
    rcases reached_singleton.1 hreached with rfl | ⟨isSection, -⟩
    · exact hn
    · exact absurd isSection h
  · exact fun hm => ⟨m, .here List.mem_cons_self, hm⟩

/-- What is no section is written if it is a label or a block whose literals are written. -/
theorem attempted_leaf (d : Nat) {kind : Text} {value : Value} {children : List Node}
    (hsection : kind ≠ sectionKind)
    (hdated : Dated value.parts) :
    Attempted (¬Expressible (.mk kind value children)) (statement d (.mk kind value children)) := by
  have hno := @not_expressible kind value children hsection
  simp only [statement, if_neg hsection]
  cases value with
  | label id content =>
    simp only
    split_ifs with hkind
    · subst hkind
      have hid := attempted_literal id (hdated.subset (List.subset_append_left _ _))
      have hcontent := attempted_literal content (hdated.subset (List.subset_append_right _ _))
      have hline : Attempted (¬id.Sayable ∨ ¬content.Sayable) (labelLine d id content) :=
        hid.bind fun idText => hcontent.map _
      refine (hline.map _).congr ?_
      rw [← not_and_or, not_iff_not]
      constructor
      · exact fun h => .label id content children h.1 h.2
      · rintro ⟨⟩
        exact ⟨‹_›, ‹_›⟩
    · exact .noStatement kind (hno (fun _ _ h => absurd h hkind) (by simp))
  | block id written rendered =>
    simp only
    split_ifs with hkind
    · subst hkind
      have hid := attempted_literal id hdated
      refine (hid.map _).congr (not_congr ?_)
      constructor
      · exact fun h => .block id written rendered children h
      · rintro ⟨⟩
        assumption
    · exact .noStatement kind (hno (by simp) fun _ _ _ h => absurd h hkind)
  | absent | text | instant | link => exact .noStatement kind (hno (by simp) (by simp))

mutual

theorem attempted_statement (d : Nat) :
    ∀ n : Node, Dated n.parts → Attempted (HasMisfit [n]) (statement d n)
  | .mk kind value children, hdated => by
    have hvalue : Dated value.parts :=
      hdated.subset (List.Subset.trans (List.subset_append_left _ _) (List.subset_cons_self _ _))
    have hchildren : Dated (partsAll children) :=
      hdated.subset (List.Subset.trans (List.subset_append_right _ _) (List.subset_cons_self _ _))
    by_cases hsection : kind = sectionKind
    · subst hsection
      have hinner := attempted_statements (d + 1) children hchildren
      simp only [statement, ↓reduceIte]
      exact (hinner.map _).congr hasMisfit_section.symm
    · have hleaf := hasMisfit_leaf (m := .mk kind value children) hsection
      exact (attempted_leaf d hsection hvalue).congr hleaf.symm

theorem attempted_statements (d : Nat) :
    ∀ ns : List Node, Dated (partsAll ns) → Attempted (HasMisfit ns) (statements d ns)
  | [], _ => .written [] hasMisfit_nil
  | n :: ns, hdated => by
    have hfirst := attempted_statement d n (hdated.subset (List.subset_append_left _ _))
    have hrest := attempted_statements d ns (hdated.subset (List.subset_append_right _ _))
    refine Attempted.congr ?_ hasMisfit_cons.symm
    rw [statements]
    exact hfirst.bind fun ls => hrest.map (ls ++ ·)

end

/-! ### Trees that have been read -/

theorem mem_walkAll_of_reached (h : Reached n ns) : n ∈ walkAll ns := by
  induction h with
  | here mem =>
    refine mem_walkAll.2 ⟨n, mem, ?_⟩
    cases n
    exact List.mem_cons_self
  | @through ns m mem isSection inner ih =>
    refine mem_walkAll.2 ⟨m, mem, ?_⟩
    obtain ⟨kind, value, children⟩ := m
    exact List.mem_cons_of_mem _ ih

variable {readInstant : Text → Option Instant}

theorem sayable_of_settled {stop : Char} {x : Literal} (h : x.Settled readInstant stop) :
    x.Sayable := by
  cases h with
  | text t => trivial
  | date i => exact .inl rfl
  | link l => exact .inr ⟨rfl, l, rfl⟩

theorem expressible_of_proper (h : n.Proper readInstant) : n.Expressible := by
  cases h with
  | heading title children => exact .heading _ children
  | label id content settledId settledContent =>
    exact .label id content [] (sayable_of_settled settledId) (sayable_of_settled settledContent)
  | block id written rendered settledId =>
    exact .block id written rendered [] (sayable_of_settled settledId)

/-- A tree that has been read has no misfit. -/
theorem not_hasMisfit_read {env : Settings} (hstages : env.stages = Stage.standard)
    (opened : List Text) (source : Text) : ¬HasMisfit (env.read opened source).tree := by
  rintro ⟨n, hreached, hn⟩
  have hattainable := Grammar.attainable_tree env opened source
  have hproper := Reader.proper_of_attainable_all hstages _ hattainable
    (mem_walkAll_of_reached hreached)
  exact hn (expressible_of_proper hproper)

/-- **A tree is written unless it has a misfit.** Let the dates of a tree hold instants, and the
offsets be whole minutes below a day.

1. The writer refuses the tree, for a statement or a literal that cannot be one, exactly if a node
   that it reaches through sections is neither a section nor a label or a block of prose with a value
   of its kind, or has a literal that is a node but neither a date nor a link with its value.
2. In all other cases it gives a text.
3. So it does for every tree that has been read through the stages of a document. -/
theorem document_refused_iff {ns : List Node} (hdated : Dated (partsAll ns)) :
    ((∃ kind, document ns = .error (.noStatement kind) ∨ document ns = .error (.noLiteral kind)) ↔
        ∃ n, Reached n ns ∧ ¬n.Expressible) ∧
      ((∀ n, Reached n ns → n.Expressible) → ∃ t, document ns = .ok t) ∧
      ∀ (env : Settings) (opened : List Text) (source : Text), env.stages = Stage.standard →
        ns = (env.read opened source).tree → ∃ t, document ns = .ok t := by
  have hattempted : Attempted (HasMisfit ns) (document ns) :=
    (attempted_statements 0 ns hdated).map _
  refine ⟨hattempted.refused_iff, fun hall => hattempted.exists_ok ?_,
    fun env opened source hstages hread => hattempted.exists_ok ?_⟩
  · rintro ⟨n, hreached, hn⟩
    exact hn (hall n hreached)
  · exact hread ▸ not_hasMisfit_read hstages opened source

/-- A section with a label, whose identifier is a date, and with a link that is no literal. -/
theorem document_refused_iff_link :
    let i : Instant := ⟨⟨2020, 1, 2, by decide, by decide, by decide⟩, .midnight, some (-3600)⟩
    let label : Node := .mk labelKind (.label (.node (.ofInstant i)) (.text "v".toList)) []
    let link : Node := .ofLink ⟨"a".toList, "b".toList⟩
    let ns : List Node := [.mk sectionKind (.text "S".toList) [label, link]]
    Dated (partsAll ns) ∧ ∃ kind, document ns = .error (.noStatement kind) ∨
      document ns = .error (.noLiteral kind) := by
  intro i label link ns
  have hparts : partsAll ns =
      [.mk sectionKind (.text "S".toList) [label, link], label, .ofInstant i, link] := rfl
  have hdated : Dated (partsAll ns) := by
    rw [hparts]
    constructor
    · simp only [List.forall_mem_cons]
      refine ⟨fun h => absurd h (by decide), fun h => absurd h (by decide), fun _ => ⟨i, rfl⟩,
        fun h => absurd h (by decide), List.forall_mem_nil _⟩
    · simp only [List.forall_mem_cons]
      refine ⟨?_, ?_, ?_, ?_, List.forall_mem_nil _⟩
      · rintro j ⟨⟩
      · rintro j ⟨⟩
      · rintro j ⟨⟩ seconds ⟨⟩
        decide
      · rintro j ⟨⟩
  have hlink : ¬link.Expressible := not_expressible (by decide) (by simp) (by simp)
  have hreached : Reached link ns :=
    .through List.mem_cons_self rfl (.here (List.mem_cons_of_mem label List.mem_cons_self))
  exact ⟨hdated, (document_refused_iff hdated).1.2 ⟨link, hreached, hlink⟩⟩

end Writer

end Vitae
