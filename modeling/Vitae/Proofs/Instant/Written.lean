import Vitae.Instant.Written
import Vitae.Proofs.Text.Digit
import Vitae.Proofs.Text.Trim

/-!
# The form of an instant in a document

`Instant.literalText` starts and ends with a digit, and between them stand only digits, blanks,
hyphens, plus signs and points (`Instant.span_literalText`). So it is trimmed, and it can stand in
an identifier and in a line.
-/

namespace Vitae

open Text

namespace Instant

/-- The characters of an instant in a document. -/
def Sign (c : Char) : Prop :=
  c.isDigit = true ∨ c ∈ ['-', ' ', '+', '.']

/-- A text of these characters that starts and ends with a digit. -/
structure Span (t : Text) : Prop where
  signs : ∀ c ∈ t, Sign c
  head : ∃ d u, t = d :: u ∧ d.isDigit = true
  last : ∃ u d, t = u ++ [d] ∧ d.isDigit = true

namespace Span

variable {t u v : Text}

/-- Spans with some characters between them. -/
theorem append (ht : Span t) (hu : ∀ c ∈ u, Sign c) (hv : Span v) : Span (t ++ u ++ v) := by
  obtain ⟨d, w, rfl, hd⟩ := ht.head
  obtain ⟨w', e, rfl, he⟩ := hv.last
  refine ⟨?_, ⟨d, w ++ u ++ (w' ++ [e]), ?_, hd⟩, ⟨d :: w ++ u ++ w', e, ?_, he⟩⟩
  · intro c hc
    rcases List.mem_append.1 hc with hc | hc
    · exact (List.mem_append.1 hc).elim (ht.signs c) (hu c)
    · exact hv.signs c hc
  · simp only [List.cons_append]
  · simp only [List.append_assoc]

theorem of_digits (ht : AllDigits t) (hne : t ≠ []) : Span t := by
  refine ⟨fun c hc => .inl (ht c hc), ?_, ?_⟩
  · exact ⟨t.head hne, t.tail, (List.cons_head_tail hne).symm, ht _ (List.head_mem hne)⟩
  · exact ⟨t.dropLast, t.getLast hne, (List.dropLast_append_getLast hne).symm,
      ht _ (List.getLast_mem hne)⟩

theorem ofNatPadded (width n : Nat) : Span (Text.ofNatPadded width n) :=
  of_digits (allDigits_ofNatPadded width n) (ofNatPadded_ne_nil width n)

theorem ne_nil (ht : Span t) : t ≠ [] := by
  obtain ⟨d, u, rfl, -⟩ := ht.head
  exact List.cons_ne_nil d u

end Span

theorem isBlank_of_isDigit {c : Char} (h : c.isDigit = true) : isBlank c = false := by
  have hbounds := toNat_of_isDigit h
  simp only [isBlank, Bool.or_eq_false_iff, Bool.and_eq_false_iff, decide_eq_false_iff_not,
    beq_eq_false_iff_ne, not_le]
  omega

theorem trim_of_span {t : Text} (h : Span t) : trim t = t := by
  refine trim_eq_self_iff.2 fun hne => ⟨?_, ?_⟩
  · obtain ⟨d, u, rfl, hd⟩ := h.head
    exact isBlank_of_isDigit hd
  · obtain ⟨u, d, rfl, hd⟩ := h.last
    rw [List.getLast_concat]
    exact isBlank_of_isDigit hd

theorem span_dayText (d : Day) : Span (dayText d) := by
  have hyphen : ∀ c ∈ ['-'], Sign c := List.forall_mem_singleton.2 (.inr (by decide))
  have h := (Span.ofNatPadded 4 d.year).append hyphen
    ((Span.ofNatPadded 2 d.month).append hyphen (Span.ofNatPadded 2 d.day))
  simpa only [dayText, List.append_assoc, List.cons_append, List.nil_append] using h

theorem span_clockText (c : Clock) : Span (clockText [] c) := by
  have h := ((Span.ofNatPadded 2 c.hour).append (u := []) (by simp)
    (Span.ofNatPadded 2 c.minute)).append (u := []) (by simp) (Span.ofNatPadded 2 c.second)
  exact h

theorem span_append_fractionText {t : Text} (h : Span t) (c : Clock) :
    Span (t ++ fractionText c) := by
  unfold fractionText
  split_ifs
  · rwa [List.append_nil]
  · have hpoint : ∀ c ∈ ['.'], Sign c := List.forall_mem_singleton.2 (.inr (by decide))
    simpa only [List.append_assoc, List.singleton_append] using
      h.append hpoint (Span.ofNatPadded 6 c.micro)

theorem span_append_offsetText {t : Text} (h : Span t) (seconds : Int) :
    Span (t ++ (offsetText [] seconds ++ offsetSecondsText [] seconds)) := by
  have hsign : ∀ c ∈ [if seconds < 0 then '-' else '+'], Sign c := by
    rw [List.forall_mem_singleton]
    split_ifs
    · exact .inr (by decide)
    · exact .inr (by decide)
  have hhours := h.append hsign (Span.ofNatPadded 2 (seconds.natAbs / 60 / 60 % 100))
  have hminutes := hhours.append (u := []) (by simp) (Span.ofNatPadded 2 (seconds.natAbs / 60 % 60))
  have hoffset : Span (t ++ offsetText [] seconds) := by
    simpa only [offsetText, List.append_assoc, List.cons_append, List.append_nil,
      List.nil_append] using hminutes
  rw [← List.append_assoc]
  unfold offsetSecondsText
  split_ifs
  · rwa [List.append_nil]
  · have hseconds := hoffset.append (u := []) (by simp)
      (Span.ofNatPadded 2 (seconds.natAbs % 60))
    rwa [List.append_nil] at hseconds

/-- **An instant stands in a document as a span**: between two digits only digits and the signs of
a date. -/
theorem span_literalText (i : Instant) : Span i.literalText := by
  unfold literalText
  split_ifs
  · exact span_dayText i.day
  · have hblank : ∀ c ∈ [' '], Sign c := List.forall_mem_singleton.2 (.inr (by decide))
    have hclock := (span_dayText i.day).append hblank (span_clockText i.clock)
    have hfraction := span_append_fractionText hclock i.clock
    rw [List.append_assoc _ [' '], List.singleton_append] at hfraction
    cases i.offset with
    | none => rwa [List.append_nil]
    | some seconds => exact span_append_offsetText hfraction seconds

theorem notMem_literalText {c : Char} (h : ¬Sign c) (i : Instant) : c ∉ i.literalText :=
  fun hc => h ((span_literalText i).signs c hc)

end Instant

end Vitae
