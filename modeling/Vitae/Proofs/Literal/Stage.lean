import Vitae.Literal.Stage
import Vitae.Proofs.Literal.Quotes

/-!
# Literals that stay texts

A text that begins neither with a quote nor as a keyword does is left as a text by the stages of a
document, and they only take blanks from it (`Stage.applyAll_plain`). No row of them adds anything to
a text (`Stage.length_applyAll_le`). So with something plain in front, a text becomes another literal
than without it (`Stage.applyAll_ne`).
-/

namespace Vitae

open Text

namespace Stage

variable {readInstant : Text → Option Instant} {v w z : Text} {s : Stage} {stages : List Stage}

theorem mem_standard_iff : s ∈ standard ↔ s = .unwrap ∨ s = .date ∨ s = .url := by
  simp [standard]

/-! ### Texts that a stage leaves -/

theorem eq_of_readDate (h : readDate readInstant v = .text w) : w = v := by
  unfold readDate at h
  split at h
  · cases h
    rfl
  · split at h
    · cases h
      rfl
    · cases h

theorem eq_of_readLink (h : readLink v = .text w) : w = v := by
  unfold readLink at h
  split at h
  · cases h
    rfl
  · split at h
    · cases h
    · cases h
    · cases h
      rfl

/-- The stages of a document. -/
theorem applyAll_standard (readInstant : Text → Option Instant) (v : Text) :
    applyAll readInstant standard (.text v) =
      match readDate readInstant (Literal.unwrap v) with
      | .text t => readLink t
      | .node n => .node n := rfl

/-- A text that has passed the stages of a document has lost its quotes, and is neither a date nor a
link. -/
theorem applyAll_standard_eq_text_iff :
    applyAll readInstant standard (.text v) = .text w ↔
      w = Literal.unwrap v ∧ readDate readInstant w = .text w ∧ readLink w = .text w := by
  rw [applyAll_standard]
  constructor
  · intro h
    split at h
    · rename_i t hdate
      obtain rfl := eq_of_readLink h
      obtain rfl := eq_of_readDate hdate
      exact ⟨rfl, hdate, h⟩
    · cases h
  · rintro ⟨rfl, hdate, hlink⟩
    rw [hdate]
    exact hlink

/-! ### Plain texts -/

/-- The text begins neither with a quote nor with a letter that a keyword of a literal begins
with. -/
def Plain (v : Text) : Prop :=
  ∃ c, (solid v).head? = some c ∧ c ≠ '"' ∧ c ≠ 'd' ∧ c ≠ 'u'

theorem Plain.head?_trim (h : Plain v) {c : Char} (hc : c = '"' ∨ c = 'd' ∨ c = 'u') :
    (trim v).head? ≠ some c := by
  obtain ⟨c', hhead, hquote, hd, hu⟩ := h
  rw [Text.head?_trim, hhead]
  rintro ⟨⟩
  tauto

theorem Plain.afterKeyword?_none (h : Plain v) {keyword : Text}
    (hkeyword : keyword = dateKeyword ∨ keyword = urlKeyword) :
    Literal.afterKeyword? keyword v = none := by
  refine Literal.afterKeyword?_of_not_prefix fun hprefix => ?_
  obtain ⟨u, hu⟩ := hprefix
  rcases hkeyword with rfl | rfl
  · exact h.head?_trim (.inr (.inl rfl)) (hu ▸ rfl)
  · exact h.head?_trim (.inr (.inr rfl)) (hu ▸ rfl)

variable (readInstant) in
/-- A stage of a document can only take blanks from a plain text. -/
theorem apply_plain (hs : s ∈ standard) (h : Plain v) :
    ∃ v', s.apply readInstant v = .text v' ∧ solid v' = solid v := by
  rcases mem_standard_iff.1 hs with rfl | rfl | rfl
  · refine ⟨trim v, ?_, solid_trim v⟩
    have hquote := h.head?_trim (.inl rfl)
    simp [unwrap, Literal.unwrap, hquote]
  · exact ⟨v, by simp [date, readDate, h.afterKeyword?_none (.inl rfl)], rfl⟩
  · exact ⟨v, by simp [url, readLink, h.afterKeyword?_none (.inr rfl)], rfl⟩

variable (readInstant) in
theorem applyAll_plain (hstages : stages ⊆ standard) (h : Plain v) :
    ∃ v', applyAll readInstant stages (.text v) = .text v' ∧ solid v' = solid v := by
  induction stages generalizing v with
  | nil => exact ⟨v, rfl, rfl⟩
  | cons s stages ih =>
    obtain ⟨hs, hstages⟩ := List.cons_subset.1 hstages
    obtain ⟨v', happly, hsolid⟩ := apply_plain readInstant hs h
    obtain ⟨v'', hall, hsolid'⟩ := ih hstages (v := v') (by unfold Plain; rwa [hsolid])
    refine ⟨v'', ?_, hsolid'.trans hsolid⟩
    rw [← hall, ← happly]
    rfl

/-- A stage of a document that leaves a text adds nothing to it. -/
theorem length_apply_le (hs : s ∈ standard) (h : s.apply readInstant w = .text z) :
    (solid z).length ≤ (solid w).length := by
  rcases mem_standard_iff.1 hs with rfl | rfl | rfl
  · cases h
    rw [Literal.unwrap, ← solid_trim w]
    split_ifs
    · exact length_solid_le ((List.dropLast_sublist _).trans (List.drop_sublist 1 _))
    · exact le_rfl
  · rw [eq_of_readDate h]
  · rw [eq_of_readLink h]

theorem applyAll_node (stages : List Stage) (n : Node) :
    applyAll readInstant stages (.node n) = .node n := by
  induction stages with
  | nil => rfl
  | cons s stages ih => exact ih

theorem length_applyAll_le (hstages : stages ⊆ standard)
    (h : applyAll readInstant stages (.text w) = .text z) :
    (solid z).length ≤ (solid w).length := by
  induction stages generalizing w with
  | nil =>
    cases h
    exact le_rfl
  | cons s stages ih =>
    obtain ⟨hs, hstages⟩ := List.cons_subset.1 hstages
    have hnext : applyAll readInstant stages (s.apply readInstant w) = .text z := h
    cases happly : s.apply readInstant w with
    | text w' =>
      rw [happly] at hnext
      exact (ih hstages hnext).trans (length_apply_le hs happly)
    | node n =>
      rw [happly, applyAll_node] at hnext
      cases hnext

/-- **With something plain in front, a text becomes another literal**, whichever stages of a document
it passes. -/
theorem applyAll_ne (hstages : stages ⊆ standard) {x : Text} (hx : Plain x) (w : Text) :
    applyAll readInstant stages (.text (x ++ w)) ≠ applyAll readInstant stages (.text w) := by
  intro heq
  obtain ⟨c, hhead, hplain⟩ := hx
  have hlength : 0 < (solid x).length := List.length_pos_iff.2 fun h => by simp [h] at hhead
  have hxw : Plain (x ++ w) := ⟨c, by simp [hhead], hplain⟩
  obtain ⟨v, htext, hsolid⟩ := applyAll_plain readInstant hstages hxw
  have hle : (solid v).length ≤ (solid w).length := length_applyAll_le hstages (heq.symm.trans htext)
  rw [hsolid, solid_append, List.length_append] at hle
  omega

end Stage

end Vitae
