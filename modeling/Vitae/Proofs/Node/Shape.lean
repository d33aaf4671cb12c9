import Vitae.Instant.Reading
import Vitae.Proofs.Reader.Attainable
import Vitae.Proofs.Writer.Literal

/-!
# The shape of nodes

Whoever works with a tree that has been read can rely on more than the types of nodes say: values
fit their kinds, only sections have nodes below them, and the texts in the nodes keep to what the
place that they were read from allows. `Node.Proper` lists this for a node and `Literal.Settled` for
the literals in it. Every node of a tree that has been read is proper, however its document ends and
whatever it has been imported through (`Reader.proper_of_read`).

What the place allows is known from `Grammar.Attainable`, on raw texts. The stages of a literal only
ever leave characters out, and what has passed them is not changed by them again
(`Writer.settled_literal`).
-/

namespace Vitae

open Text

/-- A literal that the stages have finished with, from a place that the character `stop` ends: a
text that is neither a date nor a link, a date, or a link made of words. -/
inductive Literal.Settled (readInstant : Text → Option Instant) (stop : Char) : Literal → Prop
  | text (t : Text) (free : stop ∉ t) (noDate : Stage.readDate readInstant t = .text t)
    (noLink : Stage.readLink t = .text t) : Settled readInstant stop (.text t)
  | date (i : Instant) : Settled readInstant stop (.node (.ofInstant i))
  | link (l : Link) (words : Writer.IsPlain l) (name : stop ∉ l.name) (target : stop ∉ l.target) :
    Settled readInstant stop (.node (.ofLink l))

/-- A node whose value fits its kind and keeps to what a document can say. -/
inductive Node.Proper (readInstant : Text → Option Instant) : Node → Prop
  | heading (title : Text) (children : List Node) (trimmed : trim title = title)
    (line : '\n' ∉ title) : Proper readInstant (.mk Node.sectionKind (.text title) children)
  | label (id content : Literal) (settledId : id.Settled readInstant ':')
    (settledContent : content.Settled readInstant '\n') :
    Proper readInstant (.mk Node.labelKind (.label id content) [])
  | block (id : Literal) (written rendered : Text) (settledId : id.Settled readInstant ':')
    (trimmed : trim written = written)
    (unclosed : ∀ line ∈ (lines written).tail, trim line ≠ TextBlock.terminator) :
    Proper readInstant (.mk Node.blockKind (.block id written rendered) [])

/-! ### Literals -/

namespace Writer

open Stage

variable {env : Settings}

theorem unchanged_of_literal (hstages : env.stages = Stage.standard) {raw t : Text}
    (h : Reader.literal env raw = .text t) :
    readDate env.readInstant t = .text t ∧ readLink t = .text t := by
  rw [Reader.literal, hstages] at h
  exact (applyAll_standard_eq_text_iff.1 h).2

/-- **What a raw text becomes is settled**, in any place that the raw text fits. -/
theorem settled_literal (hstages : env.stages = Stage.standard) {raw : Text} {stop : Char}
    (hraw : stop ∉ raw) : (Reader.literal env raw).Settled env.readInstant stop := by
  have hcase := literal_cases hstages raw
  have hunchanged := @unchanged_of_literal env hstages raw
  generalize Reader.literal env raw = x at hcase hunchanged
  cases hcase with
  | text =>
    obtain ⟨hdate, hlink⟩ := hunchanged rfl
    exact .text _ (fun h => hraw (Literal.mem_of_mem_unwrap h)) hdate hlink
  | date i => exact .date i
  | link l plain name target =>
    exact .link l plain (fun h => hraw (name _ h)) fun h => hraw (target _ h)

end Writer

/-! ### Nodes -/

namespace Reader

open Grammar

variable {env : Settings}

mutual

theorem proper_of_attainable (hstages : env.stages = Stage.standard) {m : Node} :
    ∀ n : Node, Attainable env n → m ∈ n.walk → m.Proper env.readInstant
  | .mk kind value children, hn, hm => by
    rw [Node.walk, List.mem_cons] at hm
    cases hn with
    | label id content idColon line =>
      obtain rfl : m = _ := hm.resolve_right (by simp [Node.walkAll])
      exact .label _ _ (Writer.settled_literal hstages idColon)
        (Writer.settled_literal hstages line)
    | block id body idColon prose =>
      obtain rfl : m = _ := hm.resolve_right (by simp [Node.walkAll])
      exact .block _ _ _ (Writer.settled_literal hstages idColon) (trim_trim body)
        (Prose.closed_eq_false_iff.1 (Prose.closed_trim prose))
    | heading title _ trimmed line inner =>
      rcases hm with rfl | hm
      · exact .heading title children trimmed line
      · exact proper_of_attainable_all hstages children inner hm

theorem proper_of_attainable_all (hstages : env.stages = Stage.standard) {m : Node} :
    ∀ ns : List Node, (∀ n ∈ ns, Attainable env n) → m ∈ Node.walkAll ns →
      m.Proper env.readInstant
  | [], _, hm => by simp [Node.walkAll] at hm
  | n :: ns, hns, hm => by
    rw [Node.walkAll, List.mem_append] at hm
    rcases hm with hm | hm
    · exact proper_of_attainable hstages n (hns n List.mem_cons_self) hm
    · exact proper_of_attainable_all hstages ns (fun n hn => hns n (List.mem_cons_of_mem _ hn)) hm

end

/-- **Every node of a tree that has been read is proper**, whatever the document holds and imports,
and whether or not the reader has come to its end. -/
theorem proper_of_read (settings : Settings) (opened : List Text) (source : Text) :
    let env := { settings with stages := Stage.standard }
    ∀ n ∈ Node.walkAll (env.read opened source).tree, n.Proper env.readInstant := by
  intro env n hn
  have hall : ∀ m ∈ (env.read opened source).tree, Attainable env m :=
    attainable_tree env opened source
  exact proper_of_attainable_all rfl _ hall hn

/-- A section with a label that has a date, and a block of prose that is cut off. -/
theorem proper_of_read_section :
    let env := { Settings.standard (Instant.read? 2026) id with stages := Stage.standard }
    let tree := (env.read [] "section S\nlabel a: date 2020-01-02\ntext T: p".toList).tree
    (Node.walkAll tree).length = 3 ∧ ∀ n ∈ Node.walkAll tree, n.Proper env.readInstant := by
  intro env tree
  have hlength : (Node.walkAll tree).length = 3 := by decide +kernel
  exact ⟨hlength, fun n hn => proper_of_read (Settings.standard (Instant.read? 2026) id) [] _ n hn⟩

end Reader

end Vitae
