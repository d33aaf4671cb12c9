import Mathlib.Tactic.SplitIfs
import Vitae.Proofs.Instant.Form

/-!
# The form of an instant in data

`Instant.isoText` tells instants apart (`Instant.isoText_inj`): every number in it has its own
width, so the parts can be taken off one after the other, and what starts behind the seconds tells
by its first character whether it is a fraction or an offset. Only offsets of whole minutes below a
day are written without loss.
-/

namespace Vitae.Instant

open Text

theorem ofNatPadded_append_inj {width n m : Nat} {t u : Text} (hwidth : 0 < width)
    (hn : n < 10 ^ width) (hm : m < 10 ^ width)
    (h : ofNatPadded width n ++ t = ofNatPadded width m ++ u) : n = m ∧ t = u :=
  (digits_ofNatPadded hwidth hn).append_inj (digits_ofNatPadded hwidth hm) h

theorem dayText_append_inj {d e : Day} {t u : Text} (h : dayText d ++ t = dayText e ++ u) :
    d = e ∧ t = u := by
  simp only [dayText, List.append_assoc, List.cons_append] at h
  obtain ⟨hyear, h⟩ := ofNatPadded_append_inj (by decide) (day_lt d).1 (day_lt e).1 h
  obtain ⟨hmonth, h⟩ := ofNatPadded_append_inj (by decide) (day_lt d).2.1 (day_lt e).2.1
    (List.cons.inj h).2
  obtain ⟨hday, h⟩ := ofNatPadded_append_inj (by decide) (day_lt d).2.2 (day_lt e).2.2
    (List.cons.inj h).2
  refine ⟨?_, h⟩
  cases d
  cases e
  simp only at hyear hmonth hday
  subst hyear hmonth hday
  rfl

/-- A time can be told from what follows, unless that starts with the point of a fraction. -/
theorem clockText_append_inj {c d : Clock} {t u : Text} (ht : t.head? ≠ some '.')
    (hu : u.head? ≠ some '.')
    (h : clockText [':'] c ++ (fractionText c ++ t) = clockText [':'] d ++ (fractionText d ++ u)) :
    c = d ∧ t = u := by
  obtain ⟨hcHour, hcMinute, hcSecond⟩ := clock_lt c
  obtain ⟨hdHour, hdMinute, hdSecond⟩ := clock_lt d
  simp only [clockText, List.append_assoc, List.singleton_append] at h
  obtain ⟨hhour, h⟩ := ofNatPadded_append_inj (by decide) hcHour hdHour h
  obtain ⟨hminute, h⟩ := ofNatPadded_append_inj (by decide) hcMinute hdMinute (List.cons.inj h).2
  obtain ⟨hsecond, h⟩ := ofNatPadded_append_inj (by decide) hcSecond hdSecond (List.cons.inj h).2
  have hfraction : c.micro = d.micro ∧ t = u := by
    unfold fractionText at h
    split_ifs at h with hc hd hd
    · exact ⟨hc.trans hd.symm, h⟩
    · exact absurd (by rw [List.nil_append] at h; rw [h]; rfl) ht
    · exact absurd (by rw [List.nil_append] at h; rw [← h]; rfl) hu
    · exact ofNatPadded_append_inj (by decide) c.micro_lt d.micro_lt (List.cons.inj h).2
  refine ⟨?_, hfraction.2⟩
  obtain ⟨hmicro, -⟩ := hfraction
  cases c
  cases d
  simp only at hhour hminute hsecond hmicro
  subst hhour hminute hsecond hmicro
  rfl

/-! ### Offsets -/

/-- The offset at the end of the form: nothing, `Z`, or a sign with hours and minutes. -/
def zoneText : Option Int → Text
  | none => []
  | some s => if s = 0 then ['Z'] else offsetText [':'] s

theorem isoText_eq (i : Instant) : i.isoText =
    dayText i.day ++ 'T' :: (clockText [':'] i.clock ++ (fractionText i.clock ++
      zoneText i.offset)) := by
  have hzone : i.isoText = dayText i.day ++ 'T' :: clockText [':'] i.clock ++
      fractionText i.clock ++ zoneText i.offset := by
    unfold isoText zoneText
    congr 1
    split <;> simp_all
  simpa using hzone

theorem head?_zoneText (offset : Option Int) : (zoneText offset).head? ≠ some '.' := by
  unfold zoneText offsetText
  grind

/-- An offset of whole minutes below a day. -/
def WrittenExactly (offset : Option Int) : Prop :=
  ∀ seconds ∈ offset, 60 ∣ seconds ∧ seconds.natAbs < 86400

theorem offsetText_inj {s r : Int} (hs : 60 ∣ s ∧ s.natAbs < 86400)
    (hr : 60 ∣ r ∧ r.natAbs < 86400) (h : offsetText [':'] s = offsetText [':'] r) : s = r := by
  simp only [offsetText, List.append_assoc, List.singleton_append] at h
  obtain ⟨hsign, h⟩ := List.cons.inj h
  obtain ⟨hhours, h⟩ := ofNatPadded_append_inj (by decide) (by omega) (by omega) h
  have hminutes : s.natAbs / 60 % 60 = r.natAbs / 60 % 60 := by
    refine (@ofNatPadded_append_inj 2 _ _ [] [] (by decide) ?_ ?_ ?_).1
    · omega
    · omega
    · simpa using h
  have hside : s < 0 ↔ r < 0 := by
    grind
  omega

theorem zoneText_inj {x y : Option Int} (hx : WrittenExactly x) (hy : WrittenExactly y)
    (h : zoneText x = zoneText y) : x = y := by
  unfold zoneText at h
  cases x with
  | none =>
    cases y with
    | none => rfl
    | some r => grind [offsetText]
  | some s =>
    cases y with
    | none => grind [offsetText]
    | some r =>
      simp only at h
      split_ifs at h with hs hr hr
      · rw [hs, hr]
      · grind [offsetText]
      · grind [offsetText]
      · rw [offsetText_inj (hx s rfl) (hy r rfl) h]

/-- **Instants with different fields or offsets have different forms.** -/
theorem isoText_inj {i j : Instant} (hi : WrittenExactly i.offset) (hj : WrittenExactly j.offset)
    (h : i.isoText = j.isoText) : i = j := by
  rw [isoText_eq, isoText_eq] at h
  obtain ⟨hday, h⟩ := dayText_append_inj h
  obtain ⟨hclock, h⟩ := clockText_append_inj (head?_zoneText _) (head?_zoneText _)
    (List.cons.inj h).2
  have hoffset := zoneText_inj hi hj h
  cases i
  cases j
  simp only at hday hclock hoffset
  rw [hday, hclock, hoffset]

end Vitae.Instant
