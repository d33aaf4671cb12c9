import Vitae.Proofs.Workbench.Forest

/-!
# Parents and rows

On a workbench an item names its parent. In an outline a row has its parent above it, the last row
before it that is one level less deep (`Outline.parentAt?`). For a forest that stands on a workbench
and its rows this is the same (`Workbench.Stands.parentOf_eq`): the parent that an item names is the
item of the row above, or the root where there is none.
-/

namespace Vitae

namespace Outline

variable {d k : Nat} {rows more : Outline}

theorem lastAt?_concat (rows : Outline) (r : Row) :
    lastAt? r.depth (rows ++ [r]) = some rows.length := by
  simp [lastAt?, List.findIdx?_cons]

theorem lastAt?_append_of_ne (h : ∀ r ∈ more, r.depth ≠ d) :
    lastAt? d (rows ++ more) = lastAt? d rows := by
  have hnone : more.reverse.findIdx? (·.depth = d) = none := by
    simpa [List.findIdx?_eq_none_iff] using h
  unfold lastAt?
  rw [List.reverse_append, List.findIdx?_append, hnone, Option.none_or, Option.map_map]
  congr 1
  funext back
  simp only [Function.comp_apply, List.length_append, List.length_reverse]
  omega

theorem lt_of_lastAt? (h : lastAt? d rows = some k) : k < rows.length := by
  unfold lastAt? at h
  obtain ⟨back, hback, rfl⟩ := Option.map_eq_some_iff.1 h
  have hlt := (List.findIdx?_eq_some_iff_findIdx_eq.1 hback).1
  rw [List.length_reverse] at hlt
  omega

end Outline

open Outline

namespace Workbench

/-- The item that stands above a row at some depth, after the rows `pre` of the items `seen`. -/
def hostAt (root : Nat) (seen : List Nat) (pre : Outline) : Nat → Option Nat
  | 0 => some root
  | d + 1 => (lastAt? d pre).bind (seen[·]?)

/-- Row by row, the items have as their parents what stands above them, after the rows `pre` of the
items `seen`. -/
inductive Named (w : Workbench) (root : Nat) : List Nat → Outline → List Nat → Outline → Prop
  | nil (seen : List Nat) (pre : Outline) : Named w root seen pre [] []
  | cons {seen walk : List Nat} {pre rows : Outline} {r : Row} {i p : Nat}
    (parent : w.parentOf i = some p) (above : hostAt root seen pre r.depth = some p)
    (next : Named w root (seen ++ [i]) (pre ++ [r]) walk rows) :
    Named w root seen pre (i :: walk) (r :: rows)

variable {w : Workbench} {root host d : Nat} {seen walk walk' attached : List Nat}
  {pre rows rows' : Outline} {ns : List Node}

/-- Rows that are no less deep do not come between. -/
theorem hostAt_append (h : hostAt root seen pre d = some host) (hrows : ∀ r ∈ rows, d ≤ r.depth) :
    hostAt root (seen ++ walk) (pre ++ rows) d = some host := by
  cases d with
  | zero => exact h
  | succ d =>
    rw [hostAt, Option.bind_eq_some_iff] at h ⊢
    obtain ⟨k, hk, hseen⟩ := h
    refine ⟨k, ?_, ?_⟩
    · rw [lastAt?_append_of_ne fun r hr => (Nat.lt_of_succ_le (hrows r hr)).ne', hk]
    · rw [List.getElem?_append_left (List.getElem?_eq_some_iff.1 hseen).1, hseen]

namespace Named

theorem length_eq (h : Named w root seen pre walk rows) : walk.length = rows.length := by
  induction h with
  | nil => rfl
  | cons parent above next ih => rw [List.length_cons, List.length_cons, ih]

theorem append (h : Named w root seen pre walk rows)
    (h' : Named w root (seen ++ walk) (pre ++ rows) walk' rows') :
    Named w root seen pre (walk ++ walk') (rows ++ rows') := by
  induction h with
  | nil seen pre => simpa using h'
  | cons parent above next ih =>
    refine .cons parent above (ih ?_)
    simpa using h'

theorem exists_row (h : Named w root seen pre walk rows) {m i : Nat} (hi : walk[m]? = some i) :
    ∃ r p, rows[m]? = some r ∧ w.parentOf i = some p ∧
      hostAt root (seen ++ walk.take m) (pre ++ rows.take m) r.depth = some p := by
  induction h generalizing m with
  | nil => cases hi
  | @cons seen walk pre rows r j p parent above next ih =>
    cases m with
    | zero =>
      obtain rfl : j = i := by simpa using hi
      exact ⟨r, p, rfl, parent, by simpa using above⟩
    | succ m =>
      obtain ⟨r', p', hr', hparent, habove⟩ := ih (by simpa using hi)
      exact ⟨r', p', by simpa using hr', hparent, by simpa using habove⟩

end Named

namespace Stands

theorem named (h : Stands w host attached walk ns) (hlength : seen.length = pre.length)
    (hhost : hostAt root seen pre d = some host) :
    Named w root seen pre walk (rowsOfAll d ns) := by
  induction h generalizing seen pre d with
  | nil => exact .nil seen pre
  | @cons host i kind value below attached walk walk' children ns order item loose inner next
      ihInner ihNext =>
    have hparent : w.parentOf i = some host := by
      rw [parentOf, item]
      rfl
    have hbelow : hostAt root (seen ++ [i]) (pre ++ [⟨d, kind, value⟩]) (d + 1) = some i := by
      have hlast := lastAt?_concat pre ⟨d, kind, value⟩
      rw [hostAt, hlast, Option.bind_some, ← hlength, List.getElem?_concat_length]
    have hinner := ihInner (by simp [hlength]) hbelow
    have hbehind : hostAt root (seen ++ ([i] ++ walk))
        (pre ++ ([⟨d, kind, value⟩] ++ rowsOfAll (d + 1) children)) d = some host := by
      refine hostAt_append hhost (List.forall_mem_cons.2 ⟨le_rfl, fun r hr => ?_⟩)
      exact (Nat.le_succ d).trans (depth_le_of_mem_rowsOfAll children hr)
    have hnext := ihNext (by simp [hlength, hinner.length_eq]) hbehind
    rw [← List.append_assoc, ← List.append_assoc] at hnext
    rw [rowsOfAll, rowsOf]
    exact .cons hparent hhost (hinner.append hnext)

/-- **The parent that an item names is the item of the row above it.** -/
theorem parentOf_eq (h : Stands w root attached walk ns) {m i : Nat} (hi : walk[m]? = some i) :
    w.parentOf i = ((rowsOfAll 0 ns).parentAt? m).elim (some root) (walk[·]?) := by
  have hnamed : Named w root [] [] walk (rowsOfAll 0 ns) := h.named rfl rfl
  obtain ⟨r, p, hr, hparent, habove⟩ := hnamed.exists_row hi
  rw [List.nil_append, List.nil_append] at habove
  rw [hparent, parentAt?, hr]
  cases hd : r.depth with
  | zero =>
    rw [hd, hostAt] at habove
    simp [hd, ← habove]
  | succ d =>
    rw [hd, hostAt, Option.bind_eq_some_iff] at habove
    obtain ⟨k, hk, hp⟩ := habove
    have hkm := lt_of_lastAt? hk
    rw [List.length_take] at hkm
    rw [List.getElem?_take_of_lt (by omega)] at hp
    simp [hd, hk, hp]

end Stands

end Workbench

end Vitae
