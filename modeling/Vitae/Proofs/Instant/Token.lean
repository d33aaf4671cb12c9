import Vitae.Instant.Token
import Vitae.Proofs.Instant.Form

/-!
# The tokens of an instant in digits

A number in digits, with a point in it or without, is a single token when a mark follows it or
nothing does (`Instant.tokensFrom_number`), and every mark is a token of its own. So the tokens of an
instant in digits are its numbers and its marks.
-/

namespace Vitae.Instant

open Text

variable {c : Char} {t u v w : Text}

/-! ### Numbers -/

/-- A number in digits, perhaps with a point and more digits. -/
inductive IsNumber : Text → Prop
  | whole {w : Text} (digits : AllDigits w) (ne_nil : w ≠ []) : IsNumber w
  | decimal {u v : Text} (whole : AllDigits u) (fraction : AllDigits v) (whole_ne : u ≠ [])
    (fraction_ne : v ≠ []) : IsNumber (u ++ '.' :: v)

/-- The marks between the numbers of an instant. -/
def IsMark (c : Char) : Prop :=
  c = '-' ∨ c = ' ' ∨ c = '+'

theorem start?_of_isDigit (h : c.isDigit = true) :
    PendingToken.start? c = some ⟨.digits, false, [c]⟩ := by
  rw [PendingToken.start?, if_neg (by simp [isLetter_of_isDigit h]),
    if_pos (isDigitLike_of_isDigit h)]

/-- The shapes of a number that may still grow. -/
def Numeric (shape : TokenShape) : Prop :=
  shape = .digits ∨ shape = .dottedDigits

theorem tokensFrom_digits {shape : TokenShape} (hshape : Numeric shape) (hw : AllDigits w)
    (p t : Text) :
    tokensFrom (some ⟨shape, false, p⟩) (w ++ t) = tokensFrom (some ⟨shape, false, p ++ w⟩) t := by
  induction w generalizing p with
  | nil => rw [List.append_nil, List.nil_append]
  | cons c w ih =>
    obtain ⟨hc, hw⟩ := List.forall_mem_cons.1 hw
    have hextend : PendingToken.extend? ⟨shape, false, p⟩ c = some ⟨shape, false, p ++ [c]⟩ := by
      rcases hshape with rfl | rfl <;>
        simp [PendingToken.extend?, isDigitLike_of_isDigit hc, PendingToken.looksPastLetter]
    rw [List.cons_append, tokensFrom, Option.bind_some, hextend]
    simp only
    rw [ih hw, List.append_assoc, List.singleton_append]

theorem tokensFrom_digit (h : c.isDigit = true) (t : Text) :
    tokensFrom none (c :: t) = tokensFrom (some ⟨.digits, false, [c]⟩) t := by
  rw [tokensFrom, Option.bind_none, start?_of_isDigit h]
  rfl

theorem tokensFrom_finish {p : PendingToken} (h : p.extend? c = none) (t : Text) :
    tokensFrom (some p) (c :: t) = p.finish p.looksPastLetter ++ tokensFrom none (c :: t) := by
  rw [tokensFrom, tokensFrom, Option.bind_some, h, Option.bind_none]
  cases PendingToken.start? c <;> simp

theorem tokensFrom_mark (hc : IsMark c) (t : Text) :
    tokensFrom none (c :: t) = [c] :: tokensFrom none t := by
  obtain ⟨hstart, hsame⟩ : PendingToken.start? c = none ∧
      (if isBlank c then ' ' else c) = c := by
    rcases hc with rfl | rfl | rfl <;> decide
  rw [tokensFrom, Option.bind_none, hstart]
  simp only [Option.map_none, Option.getD_none, List.nil_append, hsame]

theorem isPointOrComma_of_isDigit (h : c.isDigit = true) : isPointOrComma c = false := by
  rw [isPointOrComma, Bool.or_eq_false_iff, beq_eq_false_iff_ne, beq_eq_false_iff_ne]
  constructor <;> rintro rfl <;> exact absurd h (by decide)

/-- A number with a point stays whole: it has no other point, and does not end in one. -/
theorem finish_decimal (hu : AllDigits u) (hv : AllDigits v) (hne : v ≠ []) :
    PendingToken.finish ⟨.dottedDigits, false, u ++ '.' :: v⟩ false = [u ++ '.' :: v] := by
  have hcount : (u ++ '.' :: v).count '.' = 1 := by
    rw [List.count_append, List.count_cons_self, List.count_eq_zero.2 (hu.notMem (by decide)),
      List.count_eq_zero.2 (hv.notMem (by decide))]
  have hlast : (u ++ '.' :: v).getLast?.any isPointOrComma = false := by
    have hdigit : (v.getLast hne).isDigit = true := hv _ (List.getLast_mem hne)
    rw [List.getLast?_append_of_ne_nil _ (List.cons_ne_nil _ _),
      List.getLast?_cons_of_ne_nil hne, List.getLast?_eq_some_getLast hne, Option.any_some,
      isPointOrComma_of_isDigit hdigit]
  have hpoint : (u ++ '.' :: v).contains '.' = true := by simp
  simp only [PendingToken.finish, hcount, hlast, hpoint]
  rfl

/-- While a number is looked at, it is a single token. -/
theorem exists_pending (hw : IsNumber w) (t : Text) :
    ∃ shape, Numeric shape ∧ tokensFrom none (w ++ t) = tokensFrom (some ⟨shape, false, w⟩) t ∧
      PendingToken.finish ⟨shape, false, w⟩ false = [w] := by
  cases hw with
  | whole hdigits hne =>
    obtain ⟨c, w, rfl⟩ := List.exists_cons_of_ne_nil hne
    obtain ⟨hc, hw⟩ := List.forall_mem_cons.1 hdigits
    refine ⟨.digits, .inl rfl, ?_, rfl⟩
    rw [List.cons_append, tokensFrom_digit hc, tokensFrom_digits (.inl rfl) hw]
    rfl
  | @decimal u v hu hv hune hvne =>
    obtain ⟨c, u, rfl⟩ := List.exists_cons_of_ne_nil hune
    obtain ⟨hc, hu⟩ := List.forall_mem_cons.1 hu
    refine ⟨.dottedDigits, .inr rfl, ?_, ?_⟩
    · have hpoint : PendingToken.extend? ⟨.digits, false, c :: u⟩ '.' =
          some ⟨.dottedDigits, false, (c :: u) ++ ['.']⟩ := rfl
      rw [List.append_assoc, List.cons_append, tokensFrom_digit hc,
        tokensFrom_digits (.inl rfl) hu, List.singleton_append, List.cons_append, tokensFrom,
        Option.bind_some, hpoint]
      simp only
      rw [tokensFrom_digits (.inr rfl) hv, List.append_assoc, List.singleton_append]
    · exact finish_decimal (List.forall_mem_cons.2 ⟨hc, hu⟩) hv hvne

/-- A number is a token when a mark follows it, or nothing. -/
theorem tokensFrom_number (hw : IsNumber w) (ht : ∀ c ∈ t.head?, IsMark c) :
    tokensFrom none (w ++ t) = w :: tokensFrom none t := by
  obtain ⟨shape, hshape, hpending, hfinish⟩ := exists_pending hw t
  rw [hpending]
  cases t with
  | nil => exact hfinish
  | cons c t =>
    have hc : IsMark c := ht c rfl
    have hextend : PendingToken.extend? ⟨shape, false, w⟩ c = none := by
      rcases hshape with rfl | rfl <;> rcases hc with rfl | rfl | rfl <;> rfl
    have hseen : PendingToken.looksPastLetter ⟨shape, false, w⟩ = false := by
      rcases hshape with rfl | rfl <;> rfl
    rw [tokensFrom_finish hextend, hseen, hfinish, List.singleton_append]

/-! ### Instants -/

theorem isNumber_of_digits {width n : Nat} (h : Digits width n w) : IsNumber w :=
  .whole h.allDigits h.ne_nil

theorem isNumber_of_clockForm {clock : Clock} (h : ClockForm w clock) : IsNumber w := by
  cases h with
  | @mk h m s f _ hour minute second fraction =>
    generalize clock.micro = micro at fraction
    have hdigits : AllDigits (h ++ (m ++ s)) :=
      hour.allDigits.append (minute.allDigits.append second.allDigits)
    have hne : h ++ (m ++ s) ≠ [] := List.append_ne_nil_of_left_ne_nil hour.ne_nil _
    cases fraction with
    | nil =>
      rw [List.append_nil]
      exact .whole hdigits hne
    | point fraction_ne value =>
      have hnumber := IsNumber.decimal hdigits value.allDigits.of_append hne fraction_ne
      simpa only [List.append_assoc] using hnumber

theorem tokensFrom_day {y m d : Text} {year month day : Nat} (hy : Digits 4 year y)
    (hm : Digits 2 month m) (hd : Digits 2 day d) (ht : ∀ c ∈ t.head?, IsMark c) :
    tokensFrom none (y ++ '-' :: (m ++ '-' :: d) ++ t) =
      y :: ['-'] :: m :: ['-'] :: d :: tokensFrom none t := by
  have hhyphen (u : Text) : ∀ c ∈ ('-' :: u).head?, IsMark c := by
    rintro c ⟨⟩
    exact .inl rfl
  simp only [List.append_assoc, List.cons_append]
  rw [tokensFrom_number (isNumber_of_digits hy) (hhyphen _), tokensFrom_mark (.inl rfl),
    tokensFrom_number (isNumber_of_digits hm) (hhyphen _), tokensFrom_mark (.inl rfl),
    tokensFrom_number (isNumber_of_digits hd) ht]

/-- The tokens of an offset: its sign, and hours and minutes together. -/
def offsetTokens : Text → List Text
  | [] => []
  | sign :: digits => [[sign], digits]

theorem tokensFrom_offset {offset : Option Int} (h : OffsetForm t offset) :
    tokensFrom none t = offsetTokens t ∧ ∀ c ∈ t.head?, IsMark c := by
  have hsigned {sign : Char} {h m : Text} {hours minutes : Nat} (hsign : IsMark sign)
      (hour : Digits 2 hours h) (minute : Digits 2 minutes m) :
      tokensFrom none (sign :: (h ++ m)) = offsetTokens (sign :: (h ++ m)) ∧
        ∀ c ∈ (sign :: (h ++ m)).head?, IsMark c := by
    have hnumber : IsNumber (h ++ m) := .whole (hour.allDigits.append minute.allDigits)
      (List.append_ne_nil_of_left_ne_nil hour.ne_nil _)
    have htoken := tokensFrom_number (t := []) hnumber (by simp)
    rw [List.append_nil] at htoken
    refine ⟨?_, by rintro c ⟨⟩; exact hsign⟩
    rw [tokensFrom_mark hsign, htoken]
    rfl
  cases h with
  | nil => exact ⟨rfl, by simp⟩
  | ahead hour minute => exact hsigned (.inr (.inr rfl)) hour minute
  | behind hour minute => exact hsigned (.inl rfl) hour minute

theorem null_notMem_form {i : Instant} (h : Form t i) : '\x00' ∉ t := by
  have hdigits {width n : Nat} {w : Text} (hw : Digits width n w) : '\x00' ∉ w :=
    hw.allDigits.notMem (by decide)
  have hday {w : Text} {day : Day} (hw : DayForm w day) : '\x00' ∉ w := by
    cases hw with
    | mk year month day => simp [hdigits year, hdigits month, hdigits day]
  have hnumber {w : Text} (hw : IsNumber w) : '\x00' ∉ w := by
    cases hw with
    | whole digits => exact digits.notMem (by decide)
    | decimal whole fraction => simp [whole.notMem, fraction.notMem]
  have hoffset {w : Text} {offset : Option Int} (hw : OffsetForm w offset) : '\x00' ∉ w := by
    cases hw with
    | nil => simp
    | ahead hour minute => simp [hdigits hour, hdigits minute]
    | behind hour minute => simp [hdigits hour, hdigits minute]
  cases h with
  | day date => exact hday date
  | moment date time zone =>
    simp [hday date, hnumber (isNumber_of_clockForm time), hoffset zone]

theorem tokens_form {i : Instant} (h : Form t i) : tokens t = tokensFrom none t := by
  have hnull : t.filter (· ≠ '\x00') = t := List.filter_eq_self.2 fun c hc => by
    simpa using ne_of_mem_of_not_mem hc (null_notMem_form h)
  rw [tokens, hnull]

end Vitae.Instant
