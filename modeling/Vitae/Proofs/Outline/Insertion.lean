import Vitae.Proofs.Outline.Forest

/-!
# Insertion into a tree under construction

The open sections of a document under construction are the spine of its tree: each is the last node
of the one around it (`Outline.OpenAt`). Nodes that come in at the end of the innermost one stand,
in the finished document, behind the last node that it had then and in front of those that it got
afterwards (`Outline.Inserted`). `Outline.inserted_forest` is this for outlines, where the nodes
come in as rows and the rest of the document as further rows behind them.
-/

namespace Vitae.Outline

/-- In a forest under construction sections with these titles are open, from the outside in. -/
inductive OpenAt : List Text → List Node → Prop
  | here (ns : List Node) : OpenAt [] ns
  | inside (front : List Node) (title : Text) {titles : List Text} {children : List Node}
    (inner : OpenAt titles children) :
    OpenAt (title :: titles) (front ++ [.mk Node.sectionKind (.text title) children])

/-- Sections with the given titles have been open in the forest `early`, which has then grown to
`late`. The last forest is `late` with the nodes `ms` inserted behind the last node that the
innermost of these sections had in `early`. -/
inductive Inserted (ms : List Node) : List Text → List Node → List Node → List Node → Prop
  | here (early more : List Node) : Inserted ms [] early (early ++ more) (early ++ (ms ++ more))
  | inside (front more : List Node) (title : Text) {titles : List Text}
    {early late grown : List Node} (inner : Inserted ms titles early late grown) :
    Inserted ms (title :: titles) (front ++ [.mk Node.sectionKind (.text title) early])
      (front ++ .mk Node.sectionKind (.text title) late :: more)
      (front ++ .mk Node.sectionKind (.text title) grown :: more)

variable {titles more : List Text} {ns : List Node}

/-! ### Open sections -/

theorem OpenAt.dropLast (h : OpenAt titles ns) : OpenAt titles.dropLast ns := by
  induction h with
  | here ns => exact .here ns
  | @inside front title titles children inner ih =>
    cases titles with
    | nil => exact .here _
    | cons title' titles => exact .inside front title ih

theorem OpenAt.append (h : OpenAt titles ns) (ms : List Node)
    (hmore : ∀ front, OpenAt more (front ++ ms)) (d : Nat) :
    ∃ ns', rowsOfAll d ns' = rowsOfAll d ns ++ rowsOfAll (d + titles.length) ms ∧
      OpenAt (titles ++ more) ns' := by
  induction h generalizing d with
  | here ns => exact ⟨ns ++ ms, rowsOfAll_append d ns ms, hmore ns⟩
  | @inside front title titles children inner ih =>
    obtain ⟨children', hrows, hopen⟩ := ih (d + 1)
    have hinside : OpenAt (title :: titles ++ more)
        (front ++ [.mk Node.sectionKind (.text title) children']) := .inside front title hopen
    refine ⟨_, ?_, hinside⟩
    have hdepth : d + 1 + titles.length = d + (title :: titles).length := by
      rw [List.length_cons]
      omega
    rw [hdepth] at hrows
    simp only [rowsOfAll_append, rowsOfAll_singleton, rowsOf, hrows, List.append_assoc,
      List.cons_append]

/-! ### Insertion -/

/-- A forest that ends with an open section, and what is added behind it. -/
theorem forestAt_spine (d : Nat) (front : List Node) (title : Text) (children : List Node)
    {rows : Outline} (hrows : ∀ r ∈ rows, d < r.depth) (rest : Outline) :
    forestAt d (rowsOfAll d (front ++ [.mk Node.sectionKind (.text title) children]) ++
        (rows ++ rest)) =
      front ++ .mk Node.sectionKind (.text title)
        (forestAt (d + 1) (rowsOfAll (d + 1) children ++ (rows ++ rest))) :: forestAt d rest := by
  have hskip : forestAt d (rowsOfAll (d + 1) children ++ (rows ++ rest)) = forestAt d rest := by
    rw [forestAt_append_of_deeper fun r hr => depth_le_of_mem_rowsOfAll children hr,
      forestAt_append_of_deeper hrows]
  rw [rowsOfAll_append, rowsOfAll_singleton, List.append_assoc,
    forestAt_rowsOfAll_append d front _ (by simp [rowsOf])]
  simp only [rowsOf, List.cons_append, forestAt, Nat.lt_irrefl, ↓reduceIte]
  rw [hskip]

theorem inserted_forestAt (h : OpenAt titles ns) (ms : List Node) {d : Nat} {rest : Outline}
    (hrest : ∀ r ∈ rest.head?, r.depth ≤ d + titles.length) :
    Inserted ms titles ns (forestAt d (rowsOfAll d ns ++ rest))
      (forestAt d (rowsOfAll d ns ++ (rowsOfAll (d + titles.length) ms ++ rest))) := by
  induction h generalizing d with
  | here ns =>
    rw [List.length_nil, Nat.add_zero] at hrest ⊢
    have hbehind := depth_head_le ms hrest
    rw [forestAt_rowsOfAll_append d ns rest hrest, forestAt_rowsOfAll_append d ns _ hbehind,
      forestAt_rowsOfAll_append d ms rest hrest]
    exact .here ns _
  | @inside front title titles children inner ih =>
    have hdepth : d + (title :: titles).length = d + 1 + titles.length := by
      rw [List.length_cons]
      omega
    rw [hdepth] at hrest ⊢
    have hdeeper : ∀ r ∈ rowsOfAll (d + 1 + titles.length) ms, d < r.depth := by
      intro r hr
      have := depth_le_of_mem_rowsOfAll ms hr
      omega
    have hearly := forestAt_spine d front title children (List.forall_mem_nil _) rest
    rw [List.nil_append] at hearly
    rw [hearly, forestAt_spine d front title children hdeeper rest]
    exact .inside front _ title (ih hrest)

/-- **Rows that come in between are nodes that are inserted**, whatever rows follow that are no
deeper than the innermost open section. -/
theorem inserted_forest (h : OpenAt titles ns) (ms : List Node) {rest : Outline}
    (hrest : ∀ r ∈ rest.head?, r.depth ≤ titles.length) :
    Inserted ms titles (forest (rowsOfAll 0 ns)) (forest (rowsOfAll 0 ns ++ rest))
      (forest (rowsOfAll 0 ns ++ ((rowsOfAll 0 ms).shift titles.length ++ rest))) := by
  rw [← Nat.zero_add titles.length] at hrest
  rw [forest_rowsOfAll, shift_rowsOfAll]
  exact inserted_forestAt h ms hrest

end Vitae.Outline
