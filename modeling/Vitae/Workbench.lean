import Vitae.Node.Payload
import Vitae.Writer

/-!
# Building documents by hand

On a workbench, nodes are made and attached one by one. A node can be attached in several places; it
is shared then, and what is attached to it later shows in all of them. It remembers as its parent the
node that it was attached to last. The first item of a workbench is the root of the document.
-/

namespace Vitae

/-- A node that has been attached: what it was made of, the items attached to it, and the item that
it was attached to last. The root has no parent. -/
structure Item where
  kind : Text
  value : Value
  given : List Node
  attached : List Nat
  parent : Option Nat

/-- The items in the order in which they were made, the root first. -/
structure Workbench where
  items : Array Item

namespace Workbench

/-- The workbench with nothing but the root. -/
def empty : Workbench :=
  ⟨#[⟨"root".toList, .absent, [], [], none⟩]⟩

/-- Puts item `i` at the end of what is attached to item `host`. -/
def link (w : Workbench) (host i : Nat) : Workbench :=
  let items := w.items.modify i fun item => { item with parent := some host }
  ⟨items.modify host fun item => { item with attached := item.attached ++ [i] }⟩

/-- Makes an item of a node and attaches it. The nodes below it come with it, and have no
parent. -/
def attach (w : Workbench) (host : Nat) (n : Node) : Workbench :=
  link ⟨w.items.push ⟨n.kind, n.value, n.children, [], none⟩⟩ host w.items.size

/-- The number of nodes right below an item. -/
def childCount (w : Workbench) (i : Nat) : Nat :=
  match w.items[i]? with
  | none => 0
  | some item => item.given.length + item.attached.length

/-- The node of an item, with what is attached to it down to a number of levels. -/
def nodeWithin (w : Workbench) : Nat → Nat → Node
  | 0, _ => default
  | levels + 1, i =>
    match w.items[i]? with
    | none => default
    | some item =>
      .mk item.kind item.value (item.given ++ item.attached.map (nodeWithin w levels))

/-- The node of an item. Unless an item lies below itself, no branch is longer than the number of
items. -/
def node (w : Workbench) (i : Nat) : Node :=
  w.nodeWithin w.items.size i

/-- An item as a payload; the root is a document. -/
def payload (w : Workbench) (i : Nat) : Payload :=
  if i = 0 then .ofForest (w.node i).children else (w.node i).payload

/-- What lies below an item as a document. -/
def document (w : Workbench) (i : Nat) : Except WriteFault Text :=
  Writer.document (w.node i).children

/-- The kinds of the nodes below an item, each before its children. -/
def kinds (w : Workbench) (i : Nat) : List Text :=
  (Node.walkAll (w.node i).children).map Node.kind

/-- The items below an item down to a number of levels, each before what is attached to it. A node
that came with another is no item. -/
def itemsWithin (w : Workbench) : Nat → Nat → List (Option Nat)
  | 0, _ => []
  | levels + 1, i =>
    match w.items[i]? with
    | none => []
    | some item =>
      (Node.walkAll item.given).map (fun _ => none) ++
        item.attached.flatMap fun j => some j :: itemsWithin w levels j

/-- What stands above a node of a document. -/
inductive Above
  /-- The root. -/
  | root
  /-- The node at a position. -/
  | position (i : Nat)
  /-- Nothing. -/
  | nothing
  deriving DecidableEq

/-- What stands above each node of the document. An item that stands in several places is found at
the last of them. -/
def parents (w : Workbench) : List Above :=
  let order := w.itemsWithin w.items.size 0
  order.map fun entry =>
    match entry.bind fun i => w.items[i]?.bind (·.parent) with
    | none => .nothing
    | some 0 => .root
    | some parent =>
      match order.reverse.findIdx? (· == some parent) with
      | none => .nothing
      | some back => .position (order.length - 1 - back)

/-- The kind of the item that an item was attached to last, and the number of nodes below it. -/
def parent? (w : Workbench) (i : Nat) : Option (Text × Nat) := do
  let parent ← (← w.items[i]?).parent
  return ((← w.items[parent]?).kind, w.childCount parent)

end Workbench

end Vitae
