import Vitae.Node.Basic

/-!
# Outlines

An outline lists the nodes of a document in the order in which they stand, each with its depth. A
document under construction only ever grows at the end of its outline, and an outline can be set
below a section by adding to its depths. `Outline.forest` is the forest that an outline spells.
-/

namespace Vitae

/-- A line of an outline: a node without the nodes below it. -/
structure Row where
  depth : Nat
  kind : Text
  value : Value

/-- The nodes of a document in the order in which they stand. -/
abbrev Outline := List Row

namespace Outline

/-- The rows `d` levels deeper. -/
def shift (d : Nat) (rows : Outline) : Outline :=
  rows.map fun r => { r with depth := r.depth + d }

/-- The nodes at depth `d` up to the first row that is less deep. Deeper rows belong to the node
before them. -/
def forestAt (d : Nat) : Outline → List Node
  | [] => []
  | r :: rows =>
    if r.depth < d then []
    else if r.depth = d then .mk r.kind r.value (forestAt (d + 1) rows) :: forestAt d rows
    else forestAt d rows

/-- The forest that an outline spells. -/
def forest (rows : Outline) : List Node :=
  forestAt 0 rows

/-- The position of the last row at depth `d`. -/
def lastAt? (d : Nat) (rows : Outline) : Option Nat :=
  (rows.reverse.findIdx? (·.depth = d)).map (rows.length - 1 - ·)

/-- The position of the row above row `i`: the last one before it that is one level less deep. Rows
at depth zero have none. -/
def parentAt? (rows : Outline) (i : Nat) : Option Nat := do
  match (← rows[i]?).depth with
  | 0 => none
  | d + 1 => lastAt? d (rows.take i)

/-- The position of the row above each row. -/
def parents (rows : Outline) : List (Option Nat) :=
  (List.range rows.length).map rows.parentAt?

mutual

/-- The rows of a node at depth `d`. -/
def rowsOf (d : Nat) : Node → Outline
  | .mk kind value children => ⟨d, kind, value⟩ :: rowsOfAll (d + 1) children

/-- The rows of a forest at depth `d`. -/
def rowsOfAll (d : Nat) : List Node → Outline
  | [] => []
  | n :: ns => rowsOf d n ++ rowsOfAll d ns

end

end Outline

end Vitae
