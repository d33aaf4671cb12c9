import Vitae.Proofs.Outline.Forest
import Vitae.Proofs.Reader.Attainable
import Vitae.Writer

/-!
# Forests up to the rendering of prose

Two readers may render prose in different ways. `Node.withoutRendering` leaves out what a renderer
has made, so that forests can be compared in everything else. They are the same in this sense if
their rows are (`Outline.withoutRenderingAll_eq_iff`), and a document is written without regard to
what has been rendered (`Writer.document_withoutRendering`).
-/

namespace Vitae

open Outline

/-- A value without what a renderer has made of it. -/
def Value.withoutRendering : Value → Value
  | .block id written _ => .block id written []
  | value => value

mutual

/-- A node without what a renderer has made of its prose. -/
def Node.withoutRendering : Node → Node
  | .mk kind value children =>
    .mk kind value.withoutRendering (Node.withoutRenderingAll children)

@[inherit_doc Node.withoutRendering]
def Node.withoutRenderingAll : List Node → List Node
  | [] => []
  | n :: ns => n.withoutRendering :: Node.withoutRenderingAll ns

end

/-- A row without what a renderer has made of it. -/
def Row.withoutRendering (r : Row) : Row :=
  { r with value := r.value.withoutRendering }

namespace Outline

mutual

theorem rowsOf_withoutRendering (d : Nat) :
    ∀ n : Node, rowsOf d n.withoutRendering = (rowsOf d n).map Row.withoutRendering
  | .mk kind value children => by
    simp only [Node.withoutRendering, rowsOf, List.map_cons]
    rw [rowsOfAll_withoutRendering (d + 1) children]
    rfl

theorem rowsOfAll_withoutRendering (d : Nat) : ∀ ns : List Node,
    rowsOfAll d (Node.withoutRenderingAll ns) = (rowsOfAll d ns).map Row.withoutRendering
  | [] => rfl
  | n :: ns => by
    simp only [Node.withoutRenderingAll, rowsOfAll, List.map_append]
    rw [rowsOf_withoutRendering d n, rowsOfAll_withoutRendering d ns]

end

/-- **Forests are the same up to rendering exactly if their rows are.** -/
theorem withoutRenderingAll_eq_iff {ms ns : List Node} :
    Node.withoutRenderingAll ms = Node.withoutRenderingAll ns ↔
      (rowsOfAll 0 ms).map Row.withoutRendering = (rowsOfAll 0 ns).map Row.withoutRendering := by
  rw [← rowsOfAll_withoutRendering, ← rowsOfAll_withoutRendering]
  constructor
  · exact congrArg (rowsOfAll 0)
  · intro h
    rw [← forest_rowsOfAll (Node.withoutRenderingAll ms), h, forest_rowsOfAll]

/-! ### Rows and nodes -/

mutual

theorem map_value_rowsOf (d : Nat) :
    ∀ n : Node, (rowsOf d n).map Row.value = n.walk.map Node.value
  | .mk kind value children => by
    simp only [rowsOf, Node.walk, List.map_cons, Node.value]
    rw [map_value_rowsOfAll (d + 1) children]

theorem map_value_rowsOfAll (d : Nat) :
    ∀ ns : List Node, (rowsOfAll d ns).map Row.value = (Node.walkAll ns).map Node.value
  | [] => rfl
  | n :: ns => by
    simp only [rowsOfAll, Node.walkAll, List.map_append]
    rw [map_value_rowsOf d n, map_value_rowsOfAll d ns]

end

/-- What holds of the values of all nodes holds of the values of all rows. -/
theorem forall_value_rowsOfAll {p : Value → Prop} (d : Nat) {ns : List Node} :
    (∀ r ∈ rowsOfAll d ns, p r.value) ↔ ∀ n ∈ Node.walkAll ns, p n.value := by
  rw [← List.forall_mem_map (f := Row.value) (P := p), map_value_rowsOfAll, List.forall_mem_map]

end Outline

namespace Writer

open Grammar

variable {env : Settings}

theorem statements_withoutRenderingAll {ns : List Node}
    (h : ∀ n ∈ ns, ∀ d, statement d n.withoutRendering = statement d n) (d : Nat) :
    statements d (Node.withoutRenderingAll ns) = statements d ns := by
  induction ns with
  | nil => rfl
  | cons n ns ih =>
    rw [Node.withoutRenderingAll, statements, statements, h n List.mem_cons_self d,
      ih fun m hm => h m (List.mem_cons_of_mem _ hm)]

theorem statement_withoutRendering {n : Node} (h : Attainable env n) (d : Nat) :
    statement d n.withoutRendering = statement d n := by
  induction h generalizing d with
  | label id content => rfl
  | block id body => rfl
  | heading title children trimmed line inner ih =>
    have hchildren := statements_withoutRenderingAll (fun m hm => ih m hm) (d + 1)
    simp only [sectionNode, Node.withoutRendering, Value.withoutRendering, statement, ↓reduceIte]
    rw [hchildren]

/-- **The document of a forest that has been read does not depend on the renderer.** -/
theorem document_withoutRendering {ns : List Node} (h : ∀ n ∈ ns, Attainable env n) :
    document (Node.withoutRenderingAll ns) = document ns := by
  rw [document, document,
    statements_withoutRenderingAll (fun n hn => statement_withoutRendering (h n hn)) 0]

end Writer

end Vitae
