import Mathlib.Data.List.Chain
import Mathlib.Data.List.Perm.Subperm
import Vitae.Proofs.Outline.Forest
import Vitae.Proofs.Workbench.Item

/-!
# Forests on a workbench

On a workbench a forest is scattered among the items. `Workbench.Stands` says that what is attached
to an item is a forest: every item below it names as its parent the item that lists it. The walk
from the item visits the forest in the order of its nodes (`Workbench.Stands.walk_eq`), and the node
of the item has the forest as its children (`Workbench.Stands.children_node`). The dates and the
links inside the values stand right before the items of these values, and no walk meets them
(`Workbench.Stands.inside`).

A forest is kept where only other items change (`Workbench.Stands.frame`). It can be attached
somewhere else, where its roots have another parent and all that is below them stays as it is
(`Workbench.Stands.rehost`).

A tree is built at the end of its *spine*: each item of a stack is the last one that is attached to
the item before it. What is attached to the last item of the stack comes at the end of the walk
(`Workbench.Stands.grow`).
-/

namespace Vitae

open Outline

namespace Workbench

/-- The items `attached` are the roots of the forest `ns`, and they have `host` as their parent. The
walk through the forest meets the items `walk`. -/
inductive Stands (w : Workbench) : Nat → List Nat → List Nat → List Node → Prop
  | nil (host : Nat) : Stands w host [] [] []
  | cons {host i : Nat} {kind : Text} {value : Value} {below attached walk walk' : List Nat}
    {children ns : List Node} (order : host + value.inside.length < i)
    (item : w.items[i]? = some ⟨kind, value, [], below, some host⟩)
    (loose : w.Loose (i - value.inside.length) value.inside)
    (inner : Stands w i below walk children) (next : Stands w host attached walk' ns) :
    Stands w host (i :: attached) (i :: (walk ++ walk')) (.mk kind value children :: ns)

variable {w w' : Workbench} {host i p top : Nat} {attached attached' walk walk' : List Nat}
  {ns ns' : List Node} {kind : Text} {value : Value}

theorem stands_put (hhost : host < w.items.size) :
    Stands (w.put host kind value) host [w.nextItem value] [w.nextItem value]
      [.mk kind value []] := by
  have hloose : (w.put host kind value).Loose w.items.size value.inside := loose_put hhost
  have horder : host + value.inside.length < w.nextItem value := by
    unfold nextItem
    omega
  refine .cons horder (items_put_next hhost) ?_ (.nil _) (.nil _)
  rwa [nextItem, Nat.add_sub_cancel]

namespace Stands

theorem append (h : Stands w host attached walk ns) (h' : Stands w host attached' walk' ns') :
    Stands w host (attached ++ attached') (walk ++ walk') (ns ++ ns') := by
  induction h with
  | nil host => exact h'
  | cons order item loose inner next _ ih =>
    have hnext := Stands.cons order item loose inner (ih h')
    rwa [← List.append_assoc] at hnext

theorem split (h : Stands w host (attached ++ attached') walk ns) :
    ∃ walk₁ walk₂ ns₁ ns₂, walk = walk₁ ++ walk₂ ∧ ns = ns₁ ++ ns₂ ∧
      Stands w host attached walk₁ ns₁ ∧ Stands w host attached' walk₂ ns₂ := by
  induction attached generalizing walk ns with
  | nil => exact ⟨[], walk, [], ns, rfl, rfl, .nil host, h⟩
  | cons i attached ih =>
    cases h with
    | cons order item loose inner next =>
      obtain ⟨walk₁, walk₂, ns₁, ns₂, rfl, rfl, h₁, h₂⟩ := ih next
      exact ⟨_, walk₂, _, ns₂, by simp, by simp, .cons order item loose inner h₁, h₂⟩

theorem subset (h : Stands w host attached walk ns) : ∀ i ∈ attached, i ∈ walk := by
  induction h with
  | nil host => exact List.forall_mem_nil _
  | cons order item loose inner next _ ih =>
    refine List.forall_mem_cons.2 ⟨List.mem_cons_self, fun i hi => ?_⟩
    exact List.mem_cons_of_mem _ (List.mem_append_right _ (ih i hi))

theorem lt_of_mem (h : Stands w host attached walk ns) : ∀ i ∈ walk, host < i := by
  induction h with
  | nil host => exact List.forall_mem_nil _
  | cons order item loose inner next ihInner ihNext =>
    simp only [List.forall_mem_cons, List.forall_mem_append]
    refine ⟨by omega, fun i hi => ?_, ihNext⟩
    have := ihInner i hi
    omega

/-- Every item of a forest has as its parent the item that lists it, and the nodes inside its value
stand right before it. -/
theorem exists_parent (h : Stands w host attached walk ns) : ∀ i ∈ walk,
    ∃ p ∈ host :: walk, ∃ kind value below, w.items[i]? = some ⟨kind, value, [], below, some p⟩ ∧
      (i ∈ attached ∧ p = host ∨ p ∈ walk ∧ i ∈ w.attachedTo p) ∧ p + value.inside.length < i ∧
      w.Loose (i - value.inside.length) value.inside := by
  induction h with
  | nil host => exact List.forall_mem_nil _
  | @cons host i kind value below attached walk walk' children ns order item loose inner next
      ihInner ihNext =>
    simp only [List.forall_mem_cons, List.forall_mem_append]
    refine ⟨⟨host, List.mem_cons_self, kind, value, below, item,
      .inl ⟨List.mem_cons_self, rfl⟩, order, loose⟩, fun j hj => ?_, fun j hj => ?_⟩
    -- below the first item, the items are attached to it or further down:
    · obtain ⟨p, hp, kind', value', below', hitem, hlisted, horder, hloose⟩ := ihInner j hj
      have hmem : p ∈ i :: (walk ++ walk') := by
        rcases List.mem_cons.1 hp with rfl | hp
        · exact List.mem_cons_self
        · exact List.mem_cons_of_mem _ (List.mem_append_left _ hp)
      refine ⟨p, List.mem_cons_of_mem _ hmem, kind', value', below', hitem, .inr ⟨hmem, ?_⟩,
        horder, hloose⟩
      rcases hlisted with ⟨hbelow, rfl⟩ | ⟨-, hlisted⟩
      · rwa [attachedTo_eq item]
      · exact hlisted
    · obtain ⟨p, hp, kind', value', below', hitem, hlisted, horder, hloose⟩ := ihNext j hj
      have hmem (hp : p ∈ walk') : p ∈ i :: (walk ++ walk') :=
        List.mem_cons_of_mem _ (List.mem_append_right _ hp)
      refine ⟨p, ?_, kind', value', below', hitem, ?_, horder, hloose⟩
      · rcases List.mem_cons.1 hp with rfl | hp
        · exact List.mem_cons_self
        · exact List.mem_cons_of_mem _ (hmem hp)
      · rcases hlisted with ⟨hbelow, rfl⟩ | ⟨hp, hlisted⟩
        · exact .inl ⟨List.mem_cons_of_mem _ hbelow, rfl⟩
        · exact .inr ⟨hmem hp, hlisted⟩

theorem parentOf_ne_none (h : Stands w host attached walk ns) :
    ∀ i ∈ walk, w.parentOf i ≠ none := by
  intro i hi
  obtain ⟨p, -, kind, value, below, hitem, -⟩ := h.exists_parent i hi
  rw [parentOf, hitem]
  exact Option.some_ne_none p

theorem inside (h : Stands w host attached walk ns) (hi : i ∈ walk) {item : Item}
    (hitem : w.items[i]? = some item) {m : Nat} {n : Node} (hn : item.value.inside[m]? = some n) :
    w.items[i - item.value.inside.length + m]? = some (Item.ofNode n) ∧
      i - item.value.inside.length + m ∉ host :: walk := by
  obtain ⟨p, hp, kind, value, below, hitem', -, horder, hloose⟩ := h.exists_parent i hi
  obtain rfl : item = ⟨kind, value, [], below, some p⟩ := Option.some.inj (hitem.symm.trans hitem')
  dsimp only at hn ⊢
  have hm := (List.getElem?_eq_some_iff.1 hn).1
  have hle : host ≤ p := by
    rcases List.mem_cons.1 hp with rfl | hp
    · exact le_rfl
    · exact (h.lt_of_mem p hp).le
  refine ⟨hloose m n hn, fun hmem => ?_⟩
  -- they are made after the host, and all items of the walk have a parent:
  rcases List.mem_cons.1 hmem with heq | hmem
  · omega
  · refine h.parentOf_ne_none _ hmem ?_
    rw [parentOf, hloose m n hn]
    rfl

theorem parent_of_attached (h : Stands w host attached walk ns) :
    ∀ i ∈ attached, w.parentOf i = some host := by
  induction h with
  | nil host => exact List.forall_mem_nil _
  | cons order item loose inner next _ ih =>
    refine List.forall_mem_cons.2 ⟨?_, ih⟩
    rw [parentOf, item]
    rfl

theorem parent_of_listed (h : Stands w host attached walk ns) :
    ∀ p ∈ walk, ∀ i ∈ w.attachedTo p, i ∈ walk ∧ w.parentOf i = some p := by
  induction h with
  | nil host => exact List.forall_mem_nil _
  | cons order item loose inner next ihInner ihNext =>
    simp only [List.forall_mem_cons, List.forall_mem_append]
    refine ⟨fun j hj => ?_, fun p hp j hj => ?_, fun p hp j hj => ?_⟩
    · rw [attachedTo_eq item] at hj
      exact ⟨List.mem_cons_of_mem _ (List.mem_append_left _ (inner.subset j hj)),
        inner.parent_of_attached j hj⟩
    · obtain ⟨hmem, hparent⟩ := ihInner p hp j hj
      exact ⟨List.mem_cons_of_mem _ (List.mem_append_left _ hmem), hparent⟩
    · obtain ⟨hmem, hparent⟩ := ihNext p hp j hj
      exact ⟨List.mem_cons_of_mem _ (List.mem_append_right _ hmem), hparent⟩

/-- **A forest depends on its own items only**, and on the items before them that have no parent. -/
theorem frame (h : Stands w host attached walk ns)
    (agree : ∀ m ∈ walk, w'.items[m]? = w.items[m]? ∧
      ∀ j item, host < j → j < m → w.items[j]? = some item → item.parent = none →
        w'.items[j]? = some item) :
    Stands w' host attached walk ns := by
  induction h with
  | nil host => exact .nil host
  | cons order item loose inner next ihInner ihNext =>
    simp only [List.forall_mem_cons, List.forall_mem_append] at agree
    obtain ⟨⟨hitem, hloose⟩, hinner, hnext⟩ := agree
    refine .cons order (hitem ▸ item) (fun m n hn => ?_) (ihInner fun m hm => ?_) (ihNext hnext)
    · have hm := (List.getElem?_eq_some_iff.1 hn).1
      exact hloose _ _ (by omega) (by omega) (loose m n hn) rfl
    · obtain ⟨hsame, hbefore⟩ := hinner m hm
      exact ⟨hsame, fun j item hj => hbefore j item (by omega)⟩

theorem frame_of_lt (h : Stands w host attached walk ns) (bound : ∀ m ∈ walk, m < top)
    (agree : ∀ j < top, host < j → w'.items[j]? = w.items[j]?) : Stands w' host attached walk ns :=
  h.frame fun m hm => ⟨agree m (bound m hm) (h.lt_of_mem m hm),
    fun j _ hj hjm hitem _ => (agree j (hjm.trans (bound m hm)) hj).trans hitem⟩

/-- A forest is kept where something is added to an item that is attached elsewhere. -/
theorem frame_of_addedAt (h : Stands w host attached walk ns) (bound : ∀ m ∈ walk, m < top)
    (hadd : AddedAt w w' p attached' top) (hp : p ∉ walk) (hparent : w.parentOf p ≠ none) :
    Stands w' host attached walk ns := by
  refine h.frame fun m hm => ⟨hadd.kept m (bound m hm) (ne_of_mem_of_not_mem hm hp), ?_⟩
  intro j item _ hjm hitem hnone
  have hjp : j ≠ p := by
    rintro rfl
    rw [parentOf, hitem] at hparent
    exact hparent hnone
  rw [hadd.kept j (hjm.trans (bound m hm)) hjp, hitem]

/-- **A forest that is attached somewhere else changes its parent** and nothing else. -/
theorem rehost (h : Stands w host attached walk ns) (nodup : walk.Nodup) (hp : p ≤ host)
    (moved : ∀ i ∈ attached, w'.items[i]? = w.items[i]?.map ({ · with parent := some p }))
    (kept : ∀ m ∈ walk, m ∉ attached → w'.items[m]? = w.items[m]?)
    (loose : ∀ j item, host < j → w.items[j]? = some item → item.parent = none →
      w'.items[j]? = some item) :
    Stands w' p attached walk ns := by
  induction h with
  | nil host => exact .nil p
  | @cons host i kind value below attached walk walk' children ns order item hloose inner next
      _ ihNext =>
    have hi : i ∉ walk ++ walk' := (List.nodup_cons.1 nodup).1
    obtain ⟨-, hnodup, hdisjoint⟩ := List.nodup_append.1 (List.nodup_cons.1 nodup).2
    have hitem : w'.items[i]? = some ⟨kind, value, [], below, some p⟩ := by
      rw [moved i List.mem_cons_self, item]
      rfl
    refine .cons (by omega) hitem (fun m n hn => ?_) (inner.frame fun m hm => ⟨?_, ?_⟩)
      (ihNext hnodup hp (fun j hj => moved j (List.mem_cons_of_mem _ hj))
        (fun m hm hnot => ?_) loose)
    · have hm := (List.getElem?_eq_some_iff.1 hn).1
      exact loose _ _ (by omega) (hloose m n hn) rfl
    -- what is below the first item stays where it is:
    · refine kept m (List.mem_cons_of_mem _ (List.mem_append_left _ hm)) ?_
      simp only [List.mem_cons, not_or]
      refine ⟨fun heq => hi (heq ▸ List.mem_append_left _ hm), fun hmem => ?_⟩
      exact hdisjoint m hm m (next.subset m hmem) rfl
    · exact fun j item' hj _ => loose j item' (by omega)
    · refine kept m (List.mem_cons_of_mem _ (List.mem_append_right _ hm)) ?_
      simp only [List.mem_cons, not_or]
      exact ⟨fun heq => hi (heq ▸ List.mem_append_right _ hm), hnot⟩

theorem links (h : Stands w host attached walk ns) (nodup : walk.Nodup) (hp : p < host) :
    Stands (w.links p attached) p attached walk ns := by
  refine h.rehost nodup hp.le (fun i hi => ?_) (fun m hm hnot => ?_) fun j item hj hitem hnone => ?_
  · have hlt := h.lt_of_mem i (h.subset i hi)
    simp only [items_links, if_pos hi, if_neg (show i ≠ p by omega)]
  · have hlt := h.lt_of_mem m hm
    simp only [items_links, if_neg hnot, if_neg (show m ≠ p by omega), Option.map_id']
  · have hnot : j ∉ attached := by
      intro hmem
      have hparent := h.parent_of_attached j hmem
      rw [parentOf, hitem, Option.bind_some, hnone] at hparent
      cases hparent
    simp only [items_links, if_neg hnot, if_neg (show j ≠ p by omega), hitem, Option.map_some]

/-! ### The walk and the nodes of a forest -/

theorem flatMap_itemsWithin (h : Stands w host attached walk ns) {levels : Nat}
    (hlevels : walk.length ≤ levels) :
    (attached.flatMap fun i => some i :: w.itemsWithin levels i) = walk.map some := by
  induction h generalizing levels with
  | nil host => rfl
  | @cons host i kind value below attached walk walk' children ns order item loose inner next
      ihInner ihNext =>
    simp only [List.length_cons, List.length_append] at hlevels
    obtain ⟨levels, rfl⟩ : ∃ l, levels = l + 1 := ⟨levels - 1, by omega⟩
    have hbelow : w.itemsWithin (levels + 1) i = walk.map some := by
      rw [itemsWithin, item]
      exact ihInner (by omega)
    rw [List.flatMap_cons, hbelow, ihNext (by omega)]
    simp

theorem map_nodeWithin (h : Stands w host attached walk ns) {levels : Nat}
    (hlevels : walk.length ≤ levels) : attached.map (w.nodeWithin levels) = ns := by
  induction h generalizing levels with
  | nil host => rfl
  | @cons host i kind value below attached walk walk' children ns order item loose inner next
      ihInner ihNext =>
    simp only [List.length_cons, List.length_append] at hlevels
    obtain ⟨levels, rfl⟩ : ∃ l, levels = l + 1 := ⟨levels - 1, by omega⟩
    have hnode : w.nodeWithin (levels + 1) i = .mk kind value children := by
      rw [nodeWithin, item]
      exact congrArg (Node.mk kind value) (ihInner (by omega))
    rw [List.map_cons, hnode, ihNext (by omega)]

theorem length_lt_size (h : Stands w host attached walk ns) (nodup : walk.Nodup)
    (hhost : host < w.items.size) : walk.length < w.items.size := by
  have hsize : ∀ i ∈ host :: walk, i ∈ List.range w.items.size := by
    refine List.forall_mem_cons.2 ⟨List.mem_range.2 hhost, fun i hi => List.mem_range.2 ?_⟩
    obtain ⟨p, -, kind, value, below, hitem, -⟩ := h.exists_parent i hi
    exact (Array.getElem?_eq_some_iff.1 hitem).1
  have hnodup : (host :: walk).Nodup :=
    List.nodup_cons.2 ⟨fun hmem => (h.lt_of_mem host hmem).false, nodup⟩
  have hle := (List.subperm_of_subset hnodup hsize).length_le
  rwa [List.length_range] at hle

/-- **The walk from an item meets the items of the forest below it.** -/
theorem walk_eq (h : Stands w host attached walk ns) (nodup : walk.Nodup) {item : Item}
    (hitem : w.items[host]? = some item) (hgiven : item.given = [])
    (hattached : item.attached = attached) : w.walk host = walk.map some := by
  have hlength := h.length_lt_size nodup (Array.getElem?_eq_some_iff.1 hitem).1
  obtain ⟨levels, hlevels⟩ : ∃ l, w.items.size = l + 1 := ⟨w.items.size - 1, by omega⟩
  rw [Workbench.walk, hlevels, itemsWithin, hitem]
  simp only [hgiven, hattached]
  exact h.flatMap_itemsWithin (by omega)

theorem children_node (h : Stands w host attached walk ns) (nodup : walk.Nodup) {item : Item}
    (hitem : w.items[host]? = some item) (hgiven : item.given = [])
    (hattached : item.attached = attached) : (w.node host).children = ns := by
  have hlength := h.length_lt_size nodup (Array.getElem?_eq_some_iff.1 hitem).1
  obtain ⟨levels, hlevels⟩ : ∃ l, w.items.size = l + 1 := ⟨w.items.size - 1, by omega⟩
  rw [node, hlevels, nodeWithin, hitem]
  simp only [hgiven, hattached]
  exact h.map_nodeWithin (by omega)

/-! ### Growth at the end of the spine -/

/-- The last item of a forest with what is attached to it, and the forest before it. -/
theorem last (h : Stands w host (w.attachedTo host) walk ns) (hlast : w.LastSection host i) :
    ∃ front walk₁ walk₂ ns₁ kind value children, w.attachedTo host = front ++ [i] ∧
      walk = walk₁ ++ i :: walk₂ ∧ ns = ns₁ ++ [.mk kind value children] ∧
      Stands w host front walk₁ ns₁ ∧ host + value.inside.length < i ∧
      w.items[i]? = some ⟨kind, value, [], w.attachedTo i, some host⟩ ∧
      w.Loose (i - value.inside.length) value.inside ∧
      Stands w i (w.attachedTo i) walk₂ children := by
  obtain ⟨front, hfront⟩ := List.getLast?_eq_some_iff.1 hlast.1
  rw [hfront] at h
  obtain ⟨walk₁, walk₂, ns₁, ns₂, rfl, rfl, h₁, h₂⟩ := h.split
  cases h₂ with
  | @cons _ _ kind value below _ walk₂ _ children _ order item loose inner next =>
    cases next
    obtain rfl := attachedTo_eq item
    exact ⟨front, walk₁, walk₂, ns₁, kind, value, children, hfront, by simp, rfl, h₁, order, item,
      loose, inner⟩

/-- The items of the spine are met by the walk. -/
theorem mem_of_isChain {stack : List Nat} (h : Stands w host (w.attachedTo host) walk ns)
    (spine : (host :: stack).IsChain w.LastSection) : ∀ i ∈ stack, i ∈ walk := by
  induction stack generalizing host walk ns with
  | nil => exact List.forall_mem_nil _
  | cons i stack ih =>
    rw [List.isChain_cons_cons] at spine
    obtain ⟨front, walk₁, walk₂, ns₁, kind, value, children, -, rfl, -, -, -, -, -, hinner⟩ :=
      h.last spine.1
    have hrest := ih hinner spine.2
    refine List.forall_mem_cons.2 ⟨by simp, fun j hj => ?_⟩
    exact List.mem_append_right _ (List.mem_cons_of_mem _ (hrest j hj))

theorem getLastD_mem {stack : List Nat} (h : Stands w host (w.attachedTo host) walk ns)
    (spine : (host :: stack).IsChain w.LastSection) : stack.getLastD host ∈ host :: walk := by
  rcases List.eq_nil_or_concat' stack with rfl | ⟨stack, q, rfl⟩
  · exact List.mem_cons_self
  · rw [List.getLastD_concat]
    exact List.mem_cons_of_mem _ (h.mem_of_isChain spine q (by simp))

/-- **What is attached at the end of the spine comes at the end of the walk.** The forest grows by
nodes of the innermost section, and the spine stays as it is. -/
theorem grow {stack : List Nat} (h : Stands w host (w.attachedTo host) walk ns)
    (nodup : walk.Nodup) (spine : (host :: stack).IsChain w.LastSection)
    (hp : stack.getLastD host = p) (hhost : host < w.items.size)
    (bound : ∀ m ∈ host :: walk, m < top) (hadd : AddedAt w w' p attached' top)
    (new : Stands w' p attached' walk' ns') :
    ∃ grown, Stands w' host (w'.attachedTo host) (walk ++ walk') grown ∧
      (host :: stack).IsChain w'.LastSection ∧
      ∀ d, rowsOfAll d grown = rowsOfAll d ns ++ rowsOfAll (d + stack.length) ns' := by
  induction stack generalizing host walk ns with
  | nil =>
    obtain rfl : host = p := hp
    have hold : Stands w' host (w.attachedTo host) walk ns :=
      h.frame_of_lt (fun m hm => bound m (List.mem_cons_of_mem _ hm))
        fun j hj hlt => hadd.kept j hj hlt.ne'
    exact ⟨ns ++ ns', hadd.attachedTo_pointer hhost ▸ hold.append new, List.isChain_singleton _,
      fun d => rowsOfAll_append d ns ns'⟩
  | cons i stack ih =>
    rw [List.isChain_cons_cons] at spine
    obtain ⟨hlast, hspine⟩ := spine
    obtain ⟨front, walk₁, walk₂, ns₁, kind, value, children, hfront, rfl, rfl, hbefore, horder,
      hitem, hloose, hinner⟩ := h.last hlast
    rw [List.getLastD_cons] at hp
    simp only [List.forall_mem_cons, List.forall_mem_append] at bound
    obtain ⟨hhostTop, hbeforeTop, hiTop, hinnerTop⟩ := bound
    obtain ⟨-, hnodup, hdisjoint⟩ := List.nodup_append.1 nodup
    obtain ⟨grown, hgrown, hspine', hrows⟩ := ih hinner (List.nodup_cons.1 hnodup).2 hspine hp
      (Array.getElem?_eq_some_iff.1 hitem).1 (List.forall_mem_cons.2 ⟨hiTop, hinnerTop⟩)
    -- the end of the spine is the last item or below it, so what stands before that is kept:
    have hmem : p ∈ i :: walk₂ := hp ▸ hinner.getLastD_mem hspine
    have hile : i ≤ p := by
      rcases List.mem_cons.1 hmem with rfl | hmem
      · exact le_rfl
      · exact (hinner.lt_of_mem p hmem).le
    have hbefore' : Stands w' host front walk₁ ns₁ :=
      hbefore.frame_of_addedAt hbeforeTop hadd (fun hm => hdisjoint p hm p hmem rfl)
        (h.parentOf_ne_none p (List.mem_append_right _ hmem))
    have hloose' : w'.Loose (i - value.inside.length) value.inside := by
      intro m n hn
      have hm := (List.getElem?_eq_some_iff.1 hn).1
      rw [hadd.kept _ (by omega) (by omega), hloose m n hn]
    have hlisted : w'.attachedTo host = front ++ [i] := by
      rw [attachedTo_congr (hadd.kept host hhostTop (by omega)), hfront]
    have hitem' := hadd.item hiTop hitem
    have hlast' : w'.LastSection host i := by
      refine ⟨by rw [hlisted, List.getLast?_concat], ?_⟩
      rw [hitem', ← hlast.2, hitem]
      rfl
    have hnode := hbefore'.append (.cons horder hitem' hloose' hgrown (.nil host))
    refine ⟨ns₁ ++ [.mk kind value grown], ?_, List.isChain_cons_cons.2 ⟨hlast', hspine'⟩,
      fun d => ?_⟩
    · rw [hlisted, List.append_assoc, List.cons_append]
      rwa [List.append_nil] at hnode
    · have hdepth : d + 1 + stack.length = d + (i :: stack).length := by
        rw [List.length_cons]
        omega
      rw [rowsOfAll_append, rowsOfAll_append, rowsOfAll_singleton, rowsOfAll_singleton, rowsOf,
        rowsOf, hrows, hdepth, List.append_assoc, List.cons_append]

end Stands

end Workbench

end Vitae
