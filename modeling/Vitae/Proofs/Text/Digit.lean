import Mathlib.Algebra.Group.Nat.Defs
import Vitae.Text.Basic
import Vitae.Text.Digit
import Vitae.Text.Letter

/-!
# Numbers in digits

A number that is written in decimal digits, with zeros in front or without, is read as itself
(`Text.toNat?_ofNatPadded`), and a number below a power of ten fills the width with its zeros, so it
is one of that many digits (`Text.digits_ofNatPadded`).
-/

namespace Vitae.Text

/-- A text of decimal digits of ASCII. -/
def AllDigits (t : Text) : Prop := ∀ c ∈ t, c.isDigit = true

theorem AllDigits.append {t u : Text} (ht : AllDigits t) (hu : AllDigits u) : AllDigits (t ++ u) :=
  List.forall_mem_append.2 ⟨ht, hu⟩

theorem AllDigits.of_append {t u : Text} (h : AllDigits (t ++ u)) : AllDigits t :=
  (List.forall_mem_append.1 h).1

theorem AllDigits.notMem {t : Text} (ht : AllDigits t) {c : Char} (hc : c.isDigit = false) :
    c ∉ t := by
  intro hmem
  rw [ht c hmem] at hc
  cases hc

theorem toNat_of_isDigit {c : Char} (h : c.isDigit = true) : 48 ≤ c.toNat ∧ c.toNat ≤ 57 :=
  Char.isDigit_iff_toNat.1 h

theorem isUpper_of_isDigit {c : Char} (h : c.isDigit = true) : c.isUpper = false := by
  refine decide_eq_false fun hupper => ?_
  have hge : 65 ≤ c.toNat := UInt32.le_iff_toNat_le.1 hupper.1
  have hbounds := toNat_of_isDigit h
  omega

theorem isLower_of_isDigit {c : Char} (h : c.isDigit = true) : c.isLower = false := by
  refine Bool.and_eq_false_imp.2 fun hlower => ?_
  have hge : 97 ≤ c.toNat := UInt32.le_iff_toNat_le.1 (of_decide_eq_true hlower)
  have hbounds := toNat_of_isDigit h
  omega

theorem isLetter_of_isDigit {c : Char} (h : c.isDigit = true) : isLetter c = false := by
  have hbounds := toNat_of_isDigit h
  have hascii : c.toNat < 128 := by omega
  rw [isLetter, if_pos hascii]
  exact Bool.or_eq_false_iff.2 ⟨isUpper_of_isDigit h, isLower_of_isDigit h⟩

theorem digitValue?_of_isDigit {c : Char} (h : c.isDigit = true) :
    digitValue? c = some (c.toNat - 48) := by
  have hbounds := toNat_of_isDigit h
  have hascii : c.toNat < 128 := by omega
  simp only [digitValue?, hascii, h, ↓reduceIte]

theorem isDigitLike_of_isDigit {c : Char} (h : c.isDigit = true) : isDigitLike c = true := by
  rw [isDigitLike, digitValue?_of_isDigit h]
  rfl

/-- Digits are read as the number that they make. -/
theorem toNat?_of_allDigits {t : Text} (ht : AllDigits t) (hne : t ≠ []) :
    toNat? t = some (Nat.ofDigitChars 10 t 0) := by
  have hfold (n : Nat) : t.foldl
      (fun n c => (return 10 * (← n) + (← digitValue? c) : Option Nat)) (some n) =
        some (Nat.ofDigitChars 10 t n) := by
    clear hne
    induction t generalizing n with
    | nil => rfl
    | cons c t ih =>
      obtain ⟨hc, ht⟩ := List.forall_mem_cons.1 ht
      rw [List.foldl_cons, digitValue?_of_isDigit hc, Nat.ofDigitChars_cons]
      exact ih ht _
  rw [toNat?, if_neg (by simpa using hne)]
  exact hfold 0

/-! ### Written numbers -/

theorem allDigits_ofNatPadded (width n : Nat) : AllDigits (ofNatPadded width n) := by
  refine AllDigits.append (fun c hc => ?_) fun c hc => ?_
  · rw [List.eq_of_mem_replicate hc]
    decide
  · exact Nat.isDigit_of_mem_toDigits (by decide) (by decide) hc

theorem ofNatPadded_ne_nil (width n : Nat) : ofNatPadded width n ≠ [] :=
  List.append_ne_nil_of_right_ne_nil _ Nat.toDigits_ne_nil

/-- A written number is read as itself. -/
theorem toNat?_ofNatPadded (width n : Nat) : toNat? (ofNatPadded width n) = some n := by
  rw [toNat?_of_allDigits (allDigits_ofNatPadded width n) (ofNatPadded_ne_nil width n),
    ofNatPadded, Nat.ofDigitChars_append, Nat.ofDigitChars_replicate_zero, Nat.mul_zero, ofNat,
    Nat.ofDigitChars_ten_toDigits]

/-- A number below the power of ten has the given width. -/
theorem length_ofNatPadded {width n : Nat} (hwidth : 0 < width) (hn : n < 10 ^ width) :
    (ofNatPadded width n).length = width := by
  have hle : (ofNat n).length ≤ width := (Nat.length_toDigits_le_iff (by decide) hwidth).2 hn
  rw [ofNatPadded, List.length_append, List.length_replicate]
  omega

/-- A number in a given count of digits. -/
structure Digits (width n : Nat) (t : Text) : Prop where
  allDigits : AllDigits t
  length : t.length = width
  value : toNat? t = some n

theorem digits_ofNatPadded {width n : Nat} (hwidth : 0 < width) (hn : n < 10 ^ width) :
    Digits width n (ofNatPadded width n) :=
  ⟨allDigits_ofNatPadded width n, length_ofNatPadded hwidth hn, toNat?_ofNatPadded width n⟩

namespace Digits

variable {width n : Nat} {t : Text}

theorem ne_nil (h : Digits width n t) : t ≠ [] := by
  rintro rfl
  cases h.value

theorem take_append (h : Digits width n t) (u : Text) : (t ++ u).take width = t :=
  List.take_left' h.length

theorem drop_append (h : Digits width n t) (u : Text) : (t ++ u).drop width = u :=
  List.drop_left' h.length

/-- A number in a given count of digits can be told from what follows. -/
theorem append_inj {m : Nat} {u v w : Text} (ht : Digits width n t) (hu : Digits width m u)
    (h : t ++ v = u ++ w) : n = m ∧ v = w := by
  obtain ⟨rfl, hrest⟩ := List.append_inj h (ht.length.trans hu.length.symm)
  exact ⟨Option.some.inj (ht.value.symm.trans hu.value), hrest⟩

end Digits

end Vitae.Text
