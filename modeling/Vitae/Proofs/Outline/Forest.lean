import Vitae.Outline

/-!
# Outlines and forests

The rows of a forest spell this forest again (`Outline.forest_rowsOfAll`), and setting the rows
deeper is the same as writing the forest at a greater depth (`Outline.shift_rowsOfAll`). So an
outline that is made of the rows of nodes can be taken for its forest.
-/

namespace Vitae.Outline

theorem rowsOfAll_append (d : Nat) (ms ns : List Node) :
    rowsOfAll d (ms ++ ns) = rowsOfAll d ms ++ rowsOfAll d ns := by
  induction ms with
  | nil => rfl
  | cons m ms ih => simp only [List.cons_append, rowsOfAll, ih, List.append_assoc]

theorem rowsOfAll_singleton (d : Nat) (n : Node) : rowsOfAll d [n] = rowsOf d n := by
  simp only [rowsOfAll, List.append_nil]

theorem rowsOf_leaf (d : Nat) (kind : Text) (value : Value) :
    rowsOf d (.mk kind value []) = [⟨d, kind, value⟩] := by
  simp only [rowsOf, rowsOfAll]

theorem mem_rowsOfAll_of_mem {d : Nat} {n : Node} {ns : List Node} {r : Row} (hn : n ∈ ns)
    (hr : r ∈ rowsOf d n) : r ∈ rowsOfAll d ns := by
  obtain ⟨as, bs, rfl⟩ := List.append_of_mem hn
  rw [rowsOfAll_append, rowsOfAll]
  exact List.mem_append_right _ (List.mem_append_left _ hr)

mutual

theorem shift_rowsOf (d e : Nat) : ∀ n : Node, (rowsOf d n).shift e = rowsOf (d + e) n
  | .mk kind value children => by
    have h := shift_rowsOfAll (d + 1) e children
    simp only [rowsOf, shift, List.map_cons] at h ⊢
    rw [h, Nat.add_right_comm]

theorem shift_rowsOfAll (d e : Nat) :
    ∀ ns : List Node, (rowsOfAll d ns).shift e = rowsOfAll (d + e) ns
  | [] => rfl
  | n :: ns => by
    simp only [rowsOfAll]
    rw [← shift_rowsOf d e n, ← shift_rowsOfAll d e ns, shift, List.map_append]
    rfl

end

/-! ### Reading the forest off its rows -/

mutual

theorem depth_le_of_mem_rowsOf {d : Nat} {r : Row} :
    ∀ n : Node, r ∈ rowsOf d n → d ≤ r.depth
  | .mk kind value children, h => by
    simp only [rowsOf, List.mem_cons] at h
    rcases h with rfl | h
    · exact Nat.le_refl d
    · have := depth_le_of_mem_rowsOfAll children h
      omega

theorem depth_le_of_mem_rowsOfAll {d : Nat} {r : Row} :
    ∀ ns : List Node, r ∈ rowsOfAll d ns → d ≤ r.depth
  | [], h => by simp only [rowsOfAll, List.not_mem_nil] at h
  | n :: ns, h => by
    simp only [rowsOfAll, List.mem_append] at h
    exact h.elim (depth_le_of_mem_rowsOf n) (depth_le_of_mem_rowsOfAll ns)

end

/-- Rows that are deeper belong to the node before them. -/
theorem forestAt_append_of_deeper {d : Nat} {rows rest : Outline} (h : ∀ r ∈ rows, d < r.depth) :
    forestAt d (rows ++ rest) = forestAt d rest := by
  induction rows with
  | nil => rfl
  | cons r rows ih =>
    have hr := h r List.mem_cons_self
    rw [List.cons_append, forestAt, if_neg (by omega), if_neg (by omega)]
    exact ih fun r' hr' => h r' (List.mem_cons_of_mem _ hr')

/-- A row that is less deep ends a forest. -/
theorem forestAt_of_head {d : Nat} {rest : Outline} (h : ∀ r ∈ rest.head?, r.depth < d) :
    forestAt d rest = [] := by
  cases rest with
  | nil => rfl
  | cons r rest => rw [forestAt, if_pos (h r rfl)]

/-- The first of the rows of a forest, or of those behind them, is no deeper than the forest if
those behind them are not. -/
theorem depth_head_le {d : Nat} (ns : List Node) {rest : Outline}
    (h : ∀ r ∈ rest.head?, r.depth ≤ d) : ∀ r ∈ (rowsOfAll d ns ++ rest).head?, r.depth ≤ d := by
  cases ns with
  | nil => exact h
  | cons n ns =>
    obtain ⟨kind, value, children⟩ := n
    intro r hr
    simp only [rowsOfAll, rowsOf, List.cons_append, List.head?_cons, Option.mem_some_iff] at hr
    exact hr ▸ Nat.le_refl d

/-- The rows of a forest at depth `d` give this forest, whatever rows follow that are not
deeper. -/
theorem forestAt_rowsOfAll_append (d : Nat) : ∀ (ns : List Node) (rest : Outline),
    (∀ r ∈ rest.head?, r.depth ≤ d) → forestAt d (rowsOfAll d ns ++ rest) = ns ++ forestAt d rest
  | [], rest, _ => rfl
  | .mk kind value children :: ns, rest, h => by
    -- what follows the children of the first node is no deeper than this node:
    have hhead := depth_head_le ns h
    have hchildren : forestAt (d + 1) (rowsOfAll (d + 1) children ++ (rowsOfAll d ns ++ rest)) =
        children := by
      rw [forestAt_rowsOfAll_append (d + 1) children _ fun r hr => Nat.le_succ_of_le (hhead r hr),
        forestAt_of_head fun r hr => Nat.lt_succ_of_le (hhead r hr), List.append_nil]
    -- for the nodes behind it the rows of its children do not count:
    have hskip : forestAt d (rowsOfAll (d + 1) children ++ (rowsOfAll d ns ++ rest)) =
        forestAt d (rowsOfAll d ns ++ rest) :=
      forestAt_append_of_deeper fun r hr => depth_le_of_mem_rowsOfAll children hr
    simp only [rowsOfAll, rowsOf, List.cons_append, List.append_assoc, forestAt, Nat.lt_irrefl,
      ↓reduceIte]
    rw [hchildren, hskip, forestAt_rowsOfAll_append d ns rest h]
termination_by ns => sizeOf ns

/-- **The rows of a forest spell this forest.** -/
theorem forest_rowsOfAll (ns : List Node) : forest (rowsOfAll 0 ns) = ns := by
  have h := forestAt_rowsOfAll_append 0 ns [] (by simp)
  rw [List.append_nil] at h
  rw [forest, h]
  exact List.append_nil ns

end Vitae.Outline
