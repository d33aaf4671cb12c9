import Vitae.Proofs.Outline.Rendering
import Vitae.Proofs.Writer.Statement

/-!
# Written forests are read back

`Writer.Spelled` says of a forest what text stands for it, with all that the reader needs to know of
its literals, titles and prose. Every forest that can be read can be written, and what is written
spells it (`Writer.exists_spelled`, `Writer.exists_document`). How much of a forest is read back
then depends on its blocks of prose, and what counts as read back depends on the question. So the
induction over forests is done for any likeness between the rows that are written and what is read
from them (`Writer.Likeness`), and for any blocks that keep this likeness (`Writer.Kept`):
`Writer.Spelled.leads`.
-/

namespace Vitae

open Text Reader Outline Grammar

/-- The instants of the dates in a value. -/
def Value.instants : Value → List Instant
  | .label id content => id.instant?.toList ++ content.instant?.toList
  | .block id _ _ => id.instant?.toList
  | _ => []

namespace Writer

variable (env again : Settings)

/-- A forest at depth `d` and the text that stands for it. -/
inductive Spelled : Nat → List Node → Text → Prop
  | nil {d : Nat} : Spelled d [] []
  | label {d : Nat} {id content : Literal} {idText contentText t : Text} {ns : List Node}
    (idSpells : Spells again idText id) (contentSpells : Spells again contentText content)
    (colon : ':' ∉ idText) (line : '\n' ∉ contentText) (rest : Spelled d ns t) :
    Spelled d (.mk Node.labelKind (.label id content) [] :: ns)
      (labelText d idText contentText ++ t)
  | block {d : Nat} {id : Literal} {idText written rendered t : Text} {ns : List Node}
    (idSpells : Spells again idText id) (colon : ':' ∉ idText) (trimmed : trim written = written)
    (prose : (Prose.read written).closed = false) (rest : Spelled d ns t) :
    Spelled d (.mk Node.blockKind (.block id written rendered) [] :: ns)
      (blockText d idText written ++ t)
  | heading {d : Nat} {title t u : Text} {children ns : List Node} (trimmed : trim title = title)
    (line : '\n' ∉ title) (inner : Spelled (d + 1) children u) (rest : Spelled d ns t) :
    Spelled d (sectionNode title children :: ns)
      (headingText d title ++ (u ++ (closingText d ++ t)))

variable {env again}

/-! ### Writing -/

variable (again) in
/-- The node can be written, and its lines can stand before those of any other nodes. -/
def Writable (d : Nat) (n : Node) : Prop :=
  ∃ ks, statement d n = .ok ks ∧
    ∀ {ns t}, Spelled again d ns t → Spelled again d (n :: ns) (unlines ks ++ t)

theorem spelled_of_forall {d : Nat} {ns : List Node} (h : ∀ n ∈ ns, Writable again d n) :
    ∃ ls, statements d ns = .ok ls ∧ Spelled again d ns (unlines ls) := by
  induction ns with
  | nil => exact ⟨[], rfl, .nil⟩
  | cons n ns ih =>
    obtain ⟨ks, hks, hcons⟩ := h n List.mem_cons_self
    obtain ⟨ls, hls, hspelled⟩ := ih fun m hm => h m (List.mem_cons_of_mem _ hm)
    refine ⟨ks ++ ls, ?_, ?_⟩
    · rw [statements, hks, hls]
      rfl
    · rw [unlines_append]
      exact hcons hspelled

section

variable (hstages : env.stages = Stage.standard) (hstages' : again.stages = Stage.standard)
variable (hread : again.readInstant = env.readInstant)

include hstages hstages' hread

theorem writable_of_attainable {n : Node} (hn : Attainable env n) (d : Nat)
    (hknown : ∀ r ∈ rowsOf d n, ∀ i ∈ r.value.instants, env.Knows i) : Writable again d n := by
  -- induction on how the node has come about: its raw texts say how its literals are spelled
  induction hn generalizing d with
  | label id content idColon line =>
    rw [labelNode, rowsOf_leaf] at hknown
    have hrow := hknown _ List.mem_cons_self
    simp only [Value.instants, List.mem_append, Option.mem_toList] at hrow
    obtain ⟨idText, hid, hidStop⟩ :=
      exists_spells hstages hstages' hread id fun i hi => hrow i (.inl hi)
    obtain ⟨contentText, hcontent, hcontentStop⟩ :=
      exists_spells hstages hstages' hread content fun i hi => hrow i (.inr hi)
    obtain ⟨ks, hks, htext⟩ := statement_label d hid.written hcontent.written
    refine ⟨ks, hks, fun hrest => ?_⟩
    rw [htext]
    exact .label hid hcontent (hidStop ':' (.inl rfl) idColon)
      (hcontentStop '\n' (.inr rfl) line) hrest
  | block id body idColon prose =>
    rw [blockNode, rowsOf_leaf] at hknown
    have hrow := hknown _ List.mem_cons_self
    simp only [Value.instants, Option.mem_toList] at hrow
    obtain ⟨idText, hid, hidStop⟩ := exists_spells hstages hstages' hread id hrow
    obtain ⟨ks, hks, htext⟩ := statement_block d (trim body) (env.render (trimEnd body)) hid.written
    refine ⟨ks, hks, fun hrest => ?_⟩
    rw [htext]
    exact .block hid (hidStop ':' (.inl rfl) idColon) (trim_trim body) (Prose.closed_trim prose)
      hrest
  | heading title children trimmed line inner ih =>
    rw [sectionNode, rowsOf] at hknown
    obtain ⟨ls, hls, hspelled⟩ := spelled_of_forall fun m hm => ih m hm (d + 1) fun r hr =>
      hknown r (List.mem_cons_of_mem _ (mem_rowsOfAll_of_mem hm hr))
    obtain ⟨ks, hks, htext⟩ := statement_heading d title hls
    refine ⟨ks, hks, fun hrest => ?_⟩
    rw [htext, List.append_assoc, List.append_assoc]
    exact .heading trimmed line hspelled hrest

/-- **A forest that can be read can be written**, if its dates are known. -/
theorem exists_spelled {ns : List Node} (hns : ∀ n ∈ ns, Attainable env n) (d : Nat)
    (hknown : ∀ r ∈ rowsOfAll d ns, ∀ i ∈ r.value.instants, env.Knows i) :
    ∃ ls, statements d ns = .ok ls ∧ Spelled again d ns (unlines ls) :=
  spelled_of_forall fun n hn => writable_of_attainable hstages hstages' hread (hns n hn) d
    fun r hr => hknown r (mem_rowsOfAll_of_mem hn hr)

end

/-- The document of a tree that has been read, and how it is spelled for whoever knows the same
dates. -/
theorem exists_document (opened : List Text) (source : Text) (hstages : env.stages = Stage.standard)
    (hknown : ∀ n ∈ Node.walkAll (env.read opened source).tree,
      ∀ i ∈ n.value.instants, env.Knows i) :
    ∃ t b, AllBlank b ∧ document (env.read opened source).tree = .ok (t ++ b) ∧
      ∀ again : Settings, again.stages = Stage.standard → again.readInstant = env.readInstant →
        Spelled again 0 (env.read opened source).tree t := by
  have hattainable := attainable_tree env opened source
  have hrows : ∀ r ∈ rowsOfAll 0 (env.read opened source).tree,
      ∀ i ∈ r.value.instants, env.Knows i :=
    (forall_value_rowsOfAll (p := fun value => ∀ i ∈ value.instants, env.Knows i) 0).2 hknown
  obtain ⟨ls, hls, -⟩ := exists_spelled hstages hstages rfl hattainable 0 hrows
  obtain ⟨b, hb, hdocument⟩ := document_eq hls
  refine ⟨unlines ls, b, hb, hdocument, ?_⟩
  -- the lines do not depend on who reads them again, but how they are spelled does:
  intro again hstages' hread
  obtain ⟨ls', hls', hspelled⟩ := exists_spelled hstages hstages' hread hattainable 0 hrows
  obtain rfl : ls = ls' := Except.ok.inj (hls.symm.trans hls')
  exact hspelled

/-! ### Reading back -/

/-- A likeness between rows that have been written and what is read from their lines: it holds of a
row that is read back as it is, and of stretches behind each other. -/
structure Likeness where
  rel : Outline → Yield → Prop
  empty : rel [] .empty
  append : ∀ {a b : Outline} {y z : Yield}, rel a y → rel b z → rel (a ++ b) (y ++ z)
  row : ∀ {r : Row} {y : Yield}, y.rows = [r] → y.events = [] → rel [r] y

variable (again) (opened : List Text) (nested : Text → Text → Reading) (like : Likeness)

/-- Prose that stands in a block at depth `d` leads the reader on, with something like the row of
the block. -/
def Kept (d : Nat) (written : Text) : Prop :=
  trim written = written → (Prose.read written).closed = false →
    ∀ (titles : List Text) (id : Literal) (idText rendered : Text), titles.length = d →
      Spells again idText id → ':' ∉ idText →
        ∃ y, Leads again opened nested titles (blockText d idText written) titles y ∧
          like.rel [⟨d, Node.blockKind, .block id written rendered⟩] y

/-- All prose of an outline is kept. -/
def AllKept (rows : Outline) : Prop :=
  ∀ r ∈ rows, ∀ id written rendered, r.value = .block id written rendered →
    Kept again opened nested like r.depth written

variable {again opened nested like}

/-- **A forest is read back if its prose is kept.** -/
theorem Spelled.leads {d : Nat} {ns : List Node} {t : Text} (h : Spelled again d ns t)
    (hkept : AllKept again opened nested like (rowsOfAll d ns)) (titles : List Text)
    (hlength : titles.length = d) :
    ∃ y, Leads again opened nested titles t titles y ∧ like.rel (rowsOfAll d ns) y := by
  induction h generalizing titles with
  | nil => exact ⟨.empty, leads_nil, like.empty⟩
  | label idSpells contentSpells colon line rest ih =>
    rw [rowsOfAll, rowsOf_leaf] at hkept ⊢
    obtain ⟨y, hy, hrows, hevents⟩ := leads_label titles _ idSpells contentSpells colon line
    obtain ⟨z, hz, hrel⟩ := ih (fun r hr => hkept r (List.mem_append_right _ hr)) titles hlength
    rw [hlength] at hrows
    exact ⟨y ++ z, hy.append hz, like.append (like.row hrows hevents) hrel⟩
  | block idSpells colon trimmed prose rest ih =>
    rw [rowsOfAll, rowsOf_leaf] at hkept ⊢
    have hblock := hkept _ List.mem_cons_self _ _ _ rfl
    obtain ⟨y, hy, hrow⟩ := hblock trimmed prose titles _ _ _ hlength idSpells colon
    obtain ⟨z, hz, hrel⟩ := ih (fun r hr => hkept r (List.mem_append_right _ hr)) titles hlength
    exact ⟨y ++ z, hy.append hz, like.append hrow hrel⟩
  | @heading d title t u children ns trimmed line inner rest ihinner ih =>
    rw [rowsOfAll, sectionNode, rowsOf] at hkept ⊢
    have hheading : Leads again opened nested titles (headingText d title) (titles ++ [title]) _ :=
      leads_heading titles d trimmed line
    have hclose : Leads again opened nested (titles ++ [title]) (closingText d) titles _ :=
      leads_close_concat titles d title
    obtain ⟨y, hy, hinner⟩ := ihinner
      (fun r hr => hkept r (List.mem_append_left _ (List.mem_cons_of_mem _ hr)))
      (titles ++ [title]) (by rw [List.length_append, hlength, List.length_singleton])
    obtain ⟨z, hz, hrel⟩ := ih (fun r hr => hkept r (List.mem_append_right _ hr)) titles hlength
    have hrow : like.rel [⟨d, Node.sectionKind, .text title⟩]
        (.row ⟨d, Node.sectionKind, .text title⟩) := like.row rfl rfl
    rw [hlength] at hheading
    refine ⟨_, hheading.append (hy.append (hclose.append hz)), ?_⟩
    rw [Yield.empty_append, ← Yield.append_assoc]
    exact like.append (like.append hrow hinner) hrel

end Writer

end Vitae
