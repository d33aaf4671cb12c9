import Vitae.Proofs.Workbench.Parents

/-!
# Trees under construction

A tree on a workbench is built from its root item: its open sections are a stack of items, and what
is made next is attached to the last of them, or to the root if there is none. `Workbench.InOrder`
says what such a tree is like at each moment. Every item is met once, and its parent is the item
that lists it; the open sections are the last items of one another, so that what is attached next
comes at the end of the walk; the dates and the links inside the values belong to nothing.

`Workbench.Planted` is the invariant behind this. It names the rows of the tree and a number that
all its items are below, so that trees of which one was begun after the other stay apart. Making an
item keeps it (`Planted.put`), as do opening and closing a section (`Planted.opens`,
`Planted.closes`), and it is kept where all that stands below one root is attached to the end of the
other tree's spine (`Planted.links`).
-/

namespace Vitae

open Outline

namespace Workbench

/-- The node that a document grows from. -/
def rootNode : Node :=
  .mk "root".toList .absent []

/-- A tree of a workbench, with its root item, its open sections, the items that its walk meets and
the rows of its nodes. -/
structure InOrder (w : Workbench) (root : Nat) (stack walk : List Nat) (rows : Outline) :
    Prop where
  /-- The walk meets these items, each of them once. -/
  meets : w.walk root = walk.map some
  once : (root :: walk).Nodup
  /-- Every item has a parent in the tree, which lists it. -/
  listed : ∀ i ∈ walk, ∃ p ∈ root :: walk, w.parentOf i = some p ∧ i ∈ w.attachedTo p
  /-- What an item of the tree lists is met by the walk, and has this item as its parent. -/
  parent : ∀ p ∈ root :: walk, ∀ i ∈ w.attachedTo p, i ∈ walk ∧ w.parentOf i = some p
  /-- The parents are those of the rows. -/
  parents : ∀ m i, walk[m]? = some i →
    w.parentOf i = (rows.parentAt? m).elim (some root) (walk[·]?)
  top : w.parentOf root = none
  /-- From the root on, the open sections are the last items of one another. -/
  spine : (root :: stack).IsChain w.LastSection
  /-- What is attached next comes at the end of the walk. -/
  behind : ∀ kind value, (w.put (stack.getLastD root) kind value).walk root =
    w.walk root ++ [some (w.nextItem value)]
  /-- The nodes inside a value are items without a parent, and the walk does not meet them. -/
  inside : ∀ i ∈ walk, ∀ item, w.items[i]? = some item → ∀ m n, item.value.inside[m]? = some n →
    w.items[i - item.value.inside.length + m]? = some (Item.ofNode n) ∧
      i - item.value.inside.length + m ∉ root :: walk
  nodes : (w.node root).children = rows.forest

/-- A tree under construction, all of whose items have numbers from its root up to `top`. -/
structure Planted (w : Workbench) (root : Nat) (stack : List Nat) (rows : Outline) (top : Nat)
    (walk : List Nat) : Prop where
  rootItem : w.items[root]? = some ⟨rootNode.kind, .absent, [], w.attachedTo root, none⟩
  forest : ∃ ns, w.Stands root (w.attachedTo root) walk ns ∧ rowsOfAll 0 ns = rows
  nodup : walk.Nodup
  bound : ∀ m ∈ root :: walk, m < top
  spine : (root :: stack).IsChain w.LastSection

variable {w w' : Workbench} {root root' top top' i : Nat}
  {stack stack' walk walk' attached : List Nat} {rows rows' : Outline} {ns : List Node}

theorem planted_lay (w : Workbench) :
    (w.lay rootNode).Planted w.items.size [] [] (w.lay rootNode).items.size [] := by
  have hroot : (w.lay rootNode).items[w.items.size]? = some (Item.ofNode rootNode) := by
    rw [items_lay, if_pos rfl]
  have hattached := attachedTo_eq hroot
  refine ⟨?_, ⟨[], ?_, rfl⟩, List.nodup_nil, ?_, List.isChain_singleton _⟩
  · rw [hattached, hroot]
    rfl
  · rw [hattached]
    exact .nil _
  · rw [List.forall_mem_singleton, size_lay]
    exact Nat.lt_succ_self _

namespace Planted

theorem lt_size (h : w.Planted root stack rows top walk) : root < w.items.size :=
  (Array.getElem?_eq_some_iff.1 h.rootItem).1

theorem walk_eq (h : w.Planted root stack rows top walk) : w.walk root = walk.map some := by
  obtain ⟨ns, hns, -⟩ := h.forest
  exact hns.walk_eq h.nodup h.rootItem rfl rfl

theorem nodes (h : w.Planted root stack rows top walk) :
    (w.node root).children = rows.forest := by
  obtain ⟨ns, hns, rfl⟩ := h.forest
  rw [hns.children_node h.nodup h.rootItem rfl rfl, forest_rowsOfAll]

theorem mono (h : w.Planted root stack rows top walk) (hle : top ≤ top') :
    w.Planted root stack rows top' walk :=
  { h with bound := fun m hm => (h.bound m hm).trans_le hle }

theorem stack_mem (h : w.Planted root stack rows top walk) :
    ∀ p ∈ root :: stack, p ∈ root :: walk := by
  obtain ⟨ns, hns, -⟩ := h.forest
  refine List.forall_mem_cons.2 ⟨List.mem_cons_self, fun p hp => ?_⟩
  exact List.mem_cons_of_mem _ (hns.mem_of_isChain h.spine p hp)

theorem pointer_lt (h : w.Planted root stack rows top walk) : stack.getLastD root < top := by
  obtain ⟨ns, hns, -⟩ := h.forest
  exact h.bound _ (hns.getLastD_mem h.spine)

theorem root_le_pointer (h : w.Planted root stack rows top walk) :
    root ≤ stack.getLastD root := by
  obtain ⟨ns, hns, -⟩ := h.forest
  rcases List.mem_cons.1 (hns.getLastD_mem h.spine) with heq | hmem
  · exact heq.ge
  · exact (hns.lt_of_mem _ hmem).le

theorem frame (h : w.Planted root stack rows top walk)
    (agree : ∀ j < top, w'.items[j]? = w.items[j]?) : w'.Planted root stack rows top walk := by
  obtain ⟨ns, hns, hrows⟩ := h.forest
  have hroot := agree root (h.bound root List.mem_cons_self)
  have hattached := attachedTo_congr hroot
  have hsame (p : Nat) (hp : p ∈ root :: stack) : w'.items[p]? = w.items[p]? :=
    agree p (h.bound p (h.stack_mem p hp))
  refine ⟨?_, ⟨ns, ?_, hrows⟩, h.nodup, h.bound, ?_⟩
  · rw [hattached, hroot, h.rootItem]
  · rw [hattached]
    exact hns.frame_of_lt (fun m hm => h.bound m (List.mem_cons_of_mem _ hm))
      fun j hj _ => agree j hj
  · refine h.spine.imp_of_mem_imp fun p i hp hi hlast => ?_
    rwa [LastSection, attachedTo_congr (hsame p hp), hsame i hi]

/-! ### Steps of the construction -/

/-- **What is attached at the end of the spine makes the tree grow behind its last item.** -/
theorem grow (h : w.Planted root stack rows top walk)
    (hadd : AddedAt w w' (stack.getLastD root) attached top)
    (new : w'.Stands (stack.getLastD root) attached walk' ns) (nodup : walk'.Nodup)
    (bound : ∀ m ∈ walk', top ≤ m ∧ m < top') (hle : top ≤ top') :
    w'.Planted root stack (rows ++ rowsOfAll stack.length ns) top' (walk ++ walk') := by
  obtain ⟨ns₀, hns, rfl⟩ := h.forest
  obtain ⟨grown, hgrown, hspine, hrows⟩ :=
    hns.grow h.nodup h.spine rfl h.lt_size h.bound hadd new
  have hnodup : (walk ++ walk').Nodup := by
    refine List.nodup_append.2 ⟨h.nodup, nodup, fun m hm m' hm' => ?_⟩
    have hbefore := h.bound m (List.mem_cons_of_mem _ hm)
    have hbehind := (bound m' hm').1
    omega
  refine ⟨hadd.item (h.bound root List.mem_cons_self) h.rootItem, ⟨grown, hgrown, ?_⟩, hnodup, ?_,
    hspine⟩
  · rw [hrows, Nat.zero_add]
  · rw [← List.cons_append, List.forall_mem_append]
    exact ⟨(h.mono hle).bound, fun m hm => (bound m hm).2⟩

/-- An item is made and attached. -/
theorem put (h : w.Planted root stack rows w.items.size walk) (kind : Text) (value : Value) :
    (w.put (stack.getLastD root) kind value).Planted root stack
      (rows ++ [⟨stack.length, kind, value⟩]) (w.put (stack.getLastD root) kind value).items.size
      (walk ++ [w.nextItem value]) := by
  have hnew : (w.put (stack.getLastD root) kind value).Stands (stack.getLastD root)
      [w.nextItem value] [w.nextItem value] [.mk kind value []] := stands_put h.pointer_lt
  have hsize : w.items.size ≤ w.nextItem value := Nat.le_add_right _ _
  have hbound : ∀ m ∈ [w.nextItem value],
      w.items.size ≤ m ∧ m < (w.put (stack.getLastD root) kind value).items.size := by
    rw [List.forall_mem_singleton, size_put]
    exact ⟨hsize, Nat.lt_succ_self _⟩
  have hput := h.grow (addedAt_put h.pointer_lt) hnew (List.pairwise_singleton _ _) hbound
    (by rw [size_put]; omega)
  rwa [rowsOfAll_singleton, rowsOf_leaf] at hput

/-- The last item of the innermost section, if it is a section, can be opened. -/
theorem opens (h : w.Planted root stack rows top walk)
    (hlast : w.LastSection (stack.getLastD root) i) :
    w.Planted root (stack ++ [i]) rows top walk := by
  refine { h with spine := ?_ }
  rw [← List.cons_append]
  refine h.spine.append (List.isChain_singleton i) ?_
  rintro p hp i' ⟨⟩
  rw [List.getLast?_cons, Option.mem_some_iff] at hp
  obtain rfl : stack.getLastD root = p := by rw [← hp, List.getLastD_eq_getLast?]
  exact hlast

theorem closes (h : w.Planted root stack rows top walk) :
    w.Planted root stack.dropLast rows top walk :=
  { h with spine := h.spine.prefix ((List.cons_prefix_cons).2 ⟨rfl, List.dropLast_prefix stack⟩) }

/-- What is attached to the root of another tree, begun later, can be attached to the end of the
spine without a change elsewhere. -/
theorem addedAt_links (h : w.Planted root stack rows top walk)
    (h' : w.Planted root' stack' rows' top' walk') (hle : top ≤ root') :
    AddedAt w (w.links (stack.getLastD root) (w.attachedTo root')) (stack.getLastD root)
      (w.attachedTo root') top := by
  obtain ⟨ns, hns, -⟩ := h'.forest
  refine Workbench.addedAt_links (fun i hi => ?_) h.pointer_lt
  exact hle.trans (hns.lt_of_mem i (hns.subset i hi)).le

/-- **Nodes that are taken over** come in behind the last item, where they have another parent. What
stands below them is the same as before. -/
theorem links (h : w.Planted root stack rows top walk)
    (h' : w.Planted root' stack' rows' top' walk') (hle : top ≤ root') :
    (w.links (stack.getLastD root) (w.attachedTo root')).Planted root stack
      (rows ++ rows'.shift stack.length) top' (walk ++ walk') := by
  obtain ⟨ns, hns, rfl⟩ := h'.forest
  have hpointer := h.pointer_lt
  have hnew := hns.links h'.nodup (hpointer.trans_le hle)
  have hbound (m : Nat) (hm : m ∈ walk') : top ≤ m ∧ m < top' := by
    have hbehind := hns.lt_of_mem m hm
    exact ⟨by omega, h'.bound m (List.mem_cons_of_mem _ hm)⟩
  have hroot' := h'.bound root' List.mem_cons_self
  have hgrown := h.grow (h.addedAt_links h' hle) hnew h'.nodup hbound (by omega)
  rwa [shift_rowsOfAll, Nat.zero_add]

/-! ### What a tree under construction is like -/

theorem inOrder (h : w.Planted root stack rows top walk) (htop : top ≤ w.items.size) :
    w.InOrder root stack walk rows := by
  obtain ⟨ns, hns, hrows⟩ := h.forest
  have hroot : root ∉ walk := fun hmem => (hns.lt_of_mem root hmem).false
  refine ⟨h.walk_eq, List.nodup_cons.2 ⟨hroot, h.nodup⟩, fun i hi => ?_,
    List.forall_mem_cons.2 ⟨fun i hi => ?_, hns.parent_of_listed⟩,
    hrows ▸ fun m i hi => hns.parentOf_eq hi, ?_, h.spine, fun kind value => ?_,
    fun i hi item hitem m n hn => ?_, h.nodes⟩
  · obtain ⟨p, hp, kind, value, below, hitem, hlisted, -⟩ := hns.exists_parent i hi
    refine ⟨p, hp, ?_, ?_⟩
    · rw [parentOf, hitem]
      rfl
    · rcases hlisted with ⟨hattached, rfl⟩ | ⟨-, hattached⟩ <;> exact hattached
  · exact ⟨hns.subset i hi, hns.parent_of_attached i hi⟩
  · rw [parentOf, h.rootItem]
    rfl
  · rw [((h.mono htop).put kind value).walk_eq, h.walk_eq, List.map_append, List.map_singleton]
  · exact hns.inside hi hitem hn

end Planted

end Workbench

end Vitae
