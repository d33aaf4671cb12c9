import Vitae.Instant.Basic

/-!
# Nodes

A document is a forest of nodes. The kind of a node says what its value should be; a node made by
hand may disagree with its kind, and the writers say what they make of that. Identifiers and the
contents of labels are literals: plain texts, or nodes for dates and links.
-/

namespace Vitae

/-- A link and the words it is shown by. -/
structure Link where
  name : Text
  target : Text
  deriving DecidableEq

mutual

/-- An element of a document: its kind, its value and the nodes below it. -/
inductive Node where
  | mk (kind : Text) (value : Value) (children : List Node)

/-- What a node says. -/
inductive Value where
  /-- Nothing. -/
  | absent
  /-- The title of a section. -/
  | text (t : Text)
  /-- The instant of a date. -/
  | instant (i : Instant)
  /-- The link of a web address. -/
  | link (l : Link)
  /-- The identifier and the content of a label. -/
  | label (id content : Literal)
  /-- The identifier of a block of prose, the prose, and its rendered form. -/
  | block (id : Literal) (written rendered : Text)

/-- A plain text, or the node that it has been read as. -/
inductive Literal where
  | text (t : Text)
  | node (n : Node)

end

instance : Inhabited Value :=
  ⟨.absent⟩

instance : Inhabited Literal :=
  ⟨.text []⟩

instance : Inhabited Node :=
  ⟨.mk [] .absent []⟩

namespace Node

/-! ### Kinds -/

/-- The kind of a section. -/
def sectionKind : Text := "section".toList

/-- The kind of a label. -/
def labelKind : Text := "label".toList

/-- The kind of a block of prose. -/
def blockKind : Text := "rich-text".toList

/-- The kind of a date. -/
def dateKind : Text := "date".toList

/-- The kind of a link. -/
def linkKind : Text := "url".toList

/-! ### Parts -/

/-- The kind of a node. -/
def kind : Node → Text
  | .mk kind _ _ => kind

/-- The value of a node. -/
def value : Node → Value
  | .mk _ value _ => value

/-- The nodes below a node. -/
def children : Node → List Node
  | .mk _ _ children => children

/-- The node of a date. -/
def ofInstant (i : Instant) : Node :=
  .mk dateKind (.instant i) []

/-- The node of a link. -/
def ofLink (l : Link) : Node :=
  .mk linkKind (.link l) []

mutual

/-- A node and all nodes below it, each before its children. The nodes inside values are not
visited. -/
def walk : Node → List Node
  | .mk kind value children => .mk kind value children :: walkAll children

/-- The nodes of a forest, each before its children. -/
def walkAll : List Node → List Node
  | [] => []
  | n :: ns => n.walk ++ walkAll ns

end

theorem mem_walkAll {ns : List Node} {m : Node} : m ∈ walkAll ns ↔ ∃ n ∈ ns, m ∈ n.walk := by
  induction ns with
  | nil => simp [walkAll]
  | cons n ns ih => simp [walkAll, ih]

end Node

end Vitae
