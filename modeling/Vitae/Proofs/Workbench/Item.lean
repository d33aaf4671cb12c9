import Mathlib.Tactic.SplitIfs
import Vitae.Workbench

/-!
# Items of a workbench

The items of a workbench are numbered. An item lists by their numbers the items that are attached
to it (`Workbench.attachedTo`), and it names its parent (`Workbench.parentOf`). `Workbench.put`
makes an item and attaches it; the dates and the links inside its value are made right before it, as
items that have no parent and nothing attached to them. `Workbench.links` attaches items that exist.

What is said of the items afterwards comes down to one thing: up to some number nothing changes but
what is attached to one item (`Workbench.AddedAt`).
-/

namespace Vitae

/-- The node inside a literal, if it is one. -/
def Literal.inside : Literal → List Node
  | .text _ => []
  | .node n => [n]

/-- The nodes inside a value, in the order in which they are made. The content of a label is read
before its identifier. -/
def Value.inside : Value → List Node
  | .label id content => content.inside ++ id.inside
  | .block id _ _ => id.inside
  | _ => []

/-- The item of a node, before it is attached to anything. -/
def Item.ofNode (n : Node) : Item :=
  ⟨n.kind, n.value, n.children, [], none⟩

namespace Workbench

/-! ### Making items -/

/-- Makes an item of a node and attaches it to nothing. -/
def lay (w : Workbench) (n : Node) : Workbench :=
  ⟨w.items.push (Item.ofNode n)⟩

/-- Makes an item and attaches it. The nodes inside its value are made first. -/
def put (w : Workbench) (host : Nat) (kind : Text) (value : Value) : Workbench :=
  (value.inside.foldl lay w).attach host (.mk kind value [])

/-- Attaches items that exist, one after the other. -/
def links (w : Workbench) (host : Nat) (attached : List Nat) : Workbench :=
  attached.foldl (fun w i => w.link host i) w

/-! ### Looking at items -/

/-- What is attached to an item. -/
def attachedTo (w : Workbench) (i : Nat) : List Nat :=
  (w.items[i]?.map Item.attached).getD []

/-- What an item names as its parent. -/
def parentOf (w : Workbench) (i : Nat) : Option Nat :=
  w.items[i]?.bind Item.parent

/-- The items below an item, each before what is attached to it. -/
def walk (w : Workbench) (i : Nat) : List (Option Nat) :=
  w.itemsWithin w.items.size i

/-- The nodes are items from number `j` on that have no parent and nothing attached to them. -/
def Loose (w : Workbench) (j : Nat) (ns : List Node) : Prop :=
  ∀ m n, ns[m]? = some n → w.items[j + m]? = some (Item.ofNode n)

/-- An item is a section, and the last thing that is attached to another item. -/
def LastSection (w : Workbench) (host i : Nat) : Prop :=
  (w.attachedTo host).getLast? = some i ∧ w.items[i]?.map Item.kind = some Node.sectionKind

/-- Below the number `top` nothing changes but what is attached to item `p`: there the items `added`
come in behind. -/
structure AddedAt (w w' : Workbench) (p : Nat) (added : List Nat) (top : Nat) : Prop where
  pointer : w'.items[p]? = w.items[p]?.map fun item =>
    { item with attached := item.attached ++ added }
  kept : ∀ j < top, j ≠ p → w'.items[j]? = w.items[j]?

variable {w w' : Workbench} {host i p top : Nat} {attached : List Nat}

theorem attachedTo_eq {item : Item} (h : w.items[i]? = some item) :
    w.attachedTo i = item.attached := by
  rw [attachedTo, h]
  rfl

theorem attachedTo_congr (h : w'.items[i]? = w.items[i]?) : w'.attachedTo i = w.attachedTo i := by
  rw [attachedTo, attachedTo, h]

theorem walk_of_size_le (h : w.items.size ≤ i) : w.walk i = [] := by
  have hnone := Array.getElem?_eq_none h
  rw [walk]
  cases w.items.size with
  | zero => rfl
  | succ levels => rw [itemsWithin, hnone]

/-! ### The items after a change -/

theorem items_link (w : Workbench) (host i j : Nat) :
    (w.link host i).items[j]? = w.items[j]?.map fun item =>
      { item with
        attached := if j = host then item.attached ++ [i] else item.attached
        parent := if j = i then some host else item.parent } := by
  simp only [link, Array.getElem?_modify]
  cases w.items[j]? with
  | none => split_ifs <;> rfl
  | some item => by_cases hi : i = j <;> by_cases hh : host = j <;> simp [hi, hh, eq_comm]

theorem size_link (w : Workbench) (host i : Nat) :
    (w.link host i).items.size = w.items.size := by
  simp only [link, Array.size_modify]

theorem items_links (w : Workbench) (host : Nat) (attached : List Nat) (j : Nat) :
    (w.links host attached).items[j]? = w.items[j]?.map fun item =>
      { item with
        attached := if j = host then item.attached ++ attached else item.attached
        parent := if j ∈ attached then some host else item.parent } := by
  induction attached generalizing w with
  | nil => simp [links]
  | cons i attached ih =>
    have hstep := ih (w.link host i)
    rw [links, List.foldl_cons]
    rw [links] at hstep
    rw [hstep, items_link, Option.map_map]
    congr 1
    funext item
    simp only [List.mem_cons]
    split_ifs <;> simp_all

theorem size_links (w : Workbench) (host : Nat) (attached : List Nat) :
    (w.links host attached).items.size = w.items.size := by
  induction attached generalizing w with
  | nil => rfl
  | cons i attached ih => exact (ih (w.link host i)).trans (size_link w host i)

theorem items_lay (w : Workbench) (n : Node) (j : Nat) :
    (w.lay n).items[j]? = if j = w.items.size then some (Item.ofNode n) else w.items[j]? := by
  rw [lay, Array.getElem?_push]

theorem size_lay (w : Workbench) (n : Node) : (w.lay n).items.size = w.items.size + 1 :=
  Array.size_push _

theorem size_foldl_lay (ns : List Node) (w : Workbench) :
    (ns.foldl lay w).items.size = w.items.size + ns.length := by
  induction ns generalizing w with
  | nil => rfl
  | cons n ns ih =>
    rw [List.foldl_cons, ih, size_lay, List.length_cons]
    omega

theorem items_foldl_lay_of_lt {j : Nat} (ns : List Node) (hj : j < w.items.size) :
    (ns.foldl lay w).items[j]? = w.items[j]? := by
  induction ns generalizing w with
  | nil => rfl
  | cons n ns ih =>
    have hlt : j < (w.lay n).items.size := by
      rw [size_lay]
      omega
    rw [List.foldl_cons, ih hlt, items_lay, if_neg (Nat.ne_of_lt hj)]

theorem loose_foldl_lay (ns : List Node) (w : Workbench) :
    Loose (ns.foldl lay w) w.items.size ns := by
  induction ns generalizing w with
  | nil => rintro m n ⟨⟩
  | cons n ns ih =>
    rintro (_ | m) n' hn
    · obtain rfl : n = n' := by simpa using hn
      have hlt : w.items.size < (w.lay n).items.size := by
        rw [size_lay]
        omega
      rw [List.foldl_cons, Nat.add_zero, items_foldl_lay_of_lt ns hlt, items_lay, if_pos rfl]
    · have hrest := ih (w.lay n) m n' (by simpa using hn)
      rw [size_lay] at hrest
      rwa [List.foldl_cons, show w.items.size + (m + 1) = w.items.size + 1 + m by omega]

/-! ### Items that are made and attached at once -/

variable {kind : Text} {value : Value}

/-- The number of the item that comes next, where the nodes inside its value come first. -/
def nextItem (w : Workbench) (value : Value) : Nat :=
  w.items.size + value.inside.length

theorem size_put (w : Workbench) (host : Nat) (kind : Text) (value : Value) :
    (w.put host kind value).items.size = w.nextItem value + 1 := by
  change (link (lay _ _) _ _).items.size = _
  rw [size_link, size_lay, size_foldl_lay]
  rfl

theorem items_put_of_lt {j : Nat} (hj : j < w.items.size) :
    (w.put host kind value).items[j]? = w.items[j]?.map fun item =>
      { item with
        attached := if j = host then item.attached ++ [w.nextItem value] else item.attached } := by
  have hsize := size_foldl_lay value.inside w
  change (link (lay _ _) _ _).items[j]? = _
  rw [items_link, items_lay, if_neg (by omega), items_foldl_lay_of_lt _ hj, hsize]
  congr 1
  funext item
  rw [if_neg (show j ≠ w.items.size + value.inside.length by omega)]
  rfl

theorem items_put_of_ne {j : Nat} (hj : j < w.items.size) (hne : j ≠ host) :
    (w.put host kind value).items[j]? = w.items[j]? := by
  rw [items_put_of_lt hj]
  simp only [if_neg hne, Option.map_id']

theorem items_put_next (hhost : host < w.items.size) :
    (w.put host kind value).items[w.nextItem value]? = some ⟨kind, value, [], [], some host⟩ := by
  have hsize := size_foldl_lay value.inside w
  change (link (lay _ _) _ _).items[_]? = _
  have hne : w.nextItem value ≠ host := by
    unfold nextItem
    omega
  rw [items_link, items_lay, nextItem, if_pos hsize.symm, ← hsize, Option.map_some, if_pos rfl,
    hsize, ← nextItem, if_neg hne]
  rfl

theorem loose_put (hhost : host < w.items.size) :
    (w.put host kind value).Loose w.items.size value.inside := by
  intro m n hn
  have hm := (List.getElem?_eq_some_iff.1 hn).1
  have hsize := size_foldl_lay value.inside w
  change (link (lay _ _) _ _).items[_]? = _
  rw [items_link, items_lay, if_neg (by omega), loose_foldl_lay _ _ _ _ hn, Option.map_some,
    if_neg (by omega), if_neg (by omega)]

/-! ### Items that are added -/

namespace AddedAt

variable {added : List Nat}

theorem attachedTo_pointer (hadd : AddedAt w w' p added top) (hp : p < w.items.size) :
    w'.attachedTo p = w.attachedTo p ++ added := by
  have hitem := Array.getElem?_eq_getElem hp
  have hpointer := hadd.pointer
  rw [hitem] at hpointer
  rw [attachedTo_eq hpointer, attachedTo_eq hitem]

/-- An item stays what it is, whatever is attached to it. -/
theorem item (hadd : AddedAt w w' p added top) (hi : i < top) {parent : Option Nat}
    (hitem : w.items[i]? = some ⟨kind, value, [], w.attachedTo i, parent⟩) :
    w'.items[i]? = some ⟨kind, value, [], w'.attachedTo i, parent⟩ := by
  by_cases hip : i = p
  · subst hip
    rw [hadd.attachedTo_pointer (Array.getElem?_eq_some_iff.1 hitem).1, hadd.pointer, hitem]
    rfl
  · have hkept := hadd.kept i hi hip
    rw [attachedTo_congr hkept, hkept, hitem]

end AddedAt

theorem addedAt_put (hhost : host < w.items.size) :
    AddedAt w (w.put host kind value) host [w.nextItem value] w.items.size where
  pointer := by simp only [items_put_of_lt hhost, ↓reduceIte]
  kept j hj hne := items_put_of_ne hj hne

/-- A section that is made and attached is the last one there. -/
theorem lastSection_put (hhost : host < w.items.size) :
    LastSection (w.put host Node.sectionKind value) host (w.nextItem value) := by
  refine ⟨?_, ?_⟩
  · rw [(addedAt_put hhost).attachedTo_pointer hhost, List.getLast?_concat]
  · rw [items_put_next hhost]
    rfl

/-- Where the items that are linked are all from number `top` on, nothing else changes before
that. -/
theorem addedAt_links (h : ∀ i ∈ attached, top ≤ i) (hhost : host < top) :
    AddedAt w (w.links host attached) host attached top where
  pointer := by
    have hnot : host ∉ attached := fun hmem => Nat.not_lt.2 (h host hmem) hhost
    simp only [items_links, if_neg hnot, ↓reduceIte]
  kept j hj hne := by
    have hnot : j ∉ attached := fun hmem => Nat.not_lt.2 (h j hmem) hj
    simp only [items_links, if_neg hnot, if_neg hne, Option.map_id']

end Workbench

end Vitae
