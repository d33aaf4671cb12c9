import Mathlib.Algebra.Group.Int.Defs
import Mathlib.Tactic.SplitIfs
import Vitae.Instant.Reading

/-!
# Offsets of what is read

People write offsets in hours and minutes, and so every offset that is read is a number of whole
minutes (`Instant.offsetsInMinutes_read?`). Only a zone and the numbers behind a sign say anything
about the offset; the other steps of the reader keep it (`Draft.Keeps`).
-/

namespace Vitae.Instant

open Text

namespace Draft

variable {d d' : Draft} {used : Nat}

/-! ### Steps that keep the offset -/

/-- Whatever comes of a step, the draft has the offset that it had. -/
def Keeps (d : Draft) (x : Step) : Prop :=
  ∀ d' used, x = some (d', used) → d'.offset = d.offset

theorem Keeps.none : Keeps d none := by
  rintro _ _ ⟨⟩

theorem Keeps.done (h : d'.offset = d.offset) : Keeps d (some (d', used)) := by
  rintro _ _ ⟨⟩
  exact h

theorem Keeps.bind {α : Type} {x : Option α} {f : α → Step} (h : ∀ a, x = some a → Keeps d (f a)) :
    Keeps d (x >>= f) := by
  intro d' used hbind
  obtain ⟨a, ha, hf⟩ := Option.bind_eq_some_iff.1 hbind
  exact h a ha d' used hf

theorem offset_setSeconds? {t : Text} (h : d.setSeconds? t = some d') : d'.offset = d.offset := by
  obtain ⟨_, -, ⟨⟩⟩ := Option.bind_eq_some_iff.1 h
  rfl

theorem offset_setUnit? {token : Text} {n : Numeral} {unit : Nat}
    (h : d.setUnit? token n unit = some d') : d'.offset = d.offset := by
  unfold setUnit? at h
  split at h
  · cases h
    rfl
  · cases h
    rfl
  · exact offset_setSeconds? h
  · cases h
    rfl

theorem keeps_readMembers? (token mark : Text) (after : List Text) :
    Keeps d (d.readMembers? token mark after) := by
  unfold readMembers?
  -- every branch ends with the same draft but for its numbers
  repeat' first | exact .done rfl | refine .bind fun _ _ => ?_ | split

theorem keeps_readPlainNumber? (token : Text) (n : Numeral) (after : List Text) :
    Keeps d (d.readPlainNumber? token n after) := by
  unfold readPlainNumber?
  repeat' first
    | exact .done rfl
    | exact .none
    | exact keeps_readMembers? _ _ _
    | refine .bind fun _ _ => ?_
    | split
  rename_i hseconds
  have hoffset := offset_setSeconds? hseconds
  exact .done hoffset

theorem keeps_readNumber? (before : List Text) (token : Text) (n : Numeral) (after : List Text) :
    Keeps d (d.readNumber? before token n after) := by
  unfold readNumber?
  dsimp only
  repeat' first
    | exact .done rfl
    | exact keeps_readPlainNumber? _ _ _
    | refine .bind fun _ _ => ?_
    | split
  · rename_i hseconds
    have hoffset := offset_setSeconds? hseconds
    exact .done hoffset
  · rename_i hunit
    exact .done (offset_setUnit? hunit)

theorem keeps_readMonth? (thisYear month : Nat) (after : List Text) :
    Keeps d (d.readMonth? thisYear month after) := by
  unfold readMonth?
  repeat' first | exact .done rfl | refine .bind fun _ _ => ?_ | split

/-! ### Whole minutes -/

/-- The offset is a number of whole minutes, if there is one. -/
def WholeMinutes (d : Draft) : Prop :=
  ∀ seconds ∈ d.offset, 60 ∣ seconds

theorem WholeMinutes.congr (hd : d.WholeMinutes) (h : d'.offset = d.offset) : d'.WholeMinutes := by
  unfold WholeMinutes
  rwa [h]

theorem wholeMinutes_readZone (name : Text) (after : List Text) :
    (d.readZone name after).1.WholeMinutes := by
  unfold readZone WholeMinutes
  split <;> dsimp only
  · rintro _ ⟨⟩
  · split_ifs
    · rintro _ ⟨⟩
      exact Int.dvd_zero 60
    · rintro _ ⟨⟩

theorem wholeMinutes_readOffset? {sign : Text} {after : List Text}
    (h : d.readOffset? sign after = some (d', used)) : d'.WholeMinutes := by
  obtain ⟨⟨hours, minutes, n⟩, -, h⟩ := Option.bind_eq_some_iff.1 h
  -- hours and minutes on either side of universal time
  have hoffset : d'.offset = some ((hours * 3600 + minutes * 60 : Int)) ∨
      d'.offset = some (-(hours * 3600 + minutes * 60 : Int)) := by
    dsimp only at h
    generalize ((sign = ['+'] : Bool) != d.flipSign) = ahead at h
    cases ahead <;> (repeat' split at h) <;> cases h <;> simp
  rcases hoffset with hoffset | hoffset <;> rw [WholeMinutes, hoffset] <;> rintro _ ⟨⟩ <;> omega

/-- **A step keeps offsets of whole minutes.** -/
theorem wholeMinutes_read? {thisYear : Nat} {before after : List Text} {token : Text}
    (hd : d.WholeMinutes) (h : d.read? thisYear before token after = some (d', used)) :
    d'.WholeMinutes := by
  unfold read? at h
  split at h
  · exact hd.congr (keeps_readNumber? _ _ _ _ _ _ h)
  · split at h
    · cases h
      exact hd
    · exact hd.congr (keeps_readMonth? _ _ _ _ _ h)
    · obtain ⟨hour, -, h⟩ := Option.bind_eq_some_iff.1 h
      split_ifs at h
      cases h
      exact hd
    · split_ifs at h
      · have hzone := wholeMinutes_readZone (d := d) token after
        rwa [Option.some.inj h] at hzone
      · exact wholeMinutes_readOffset? h
      · cases h
        exact hd

theorem wholeMinutes_readAll? {thisYear : Nat} {before tokens : List Text} (hd : d.WholeMinutes)
    (h : d.readAll? thisYear before tokens = some d') : d'.WholeMinutes := by
  fun_induction readAll? thisYear d before tokens with
  | case1 =>
    cases h
    exact hd
  | case2 d before token after ih =>
    obtain ⟨⟨d'', n⟩, hstep, h⟩ := Option.bind_eq_some_iff.1 h
    exact ih d'' n (wholeMinutes_read? hd hstep) h

theorem offset_toInstant? {thisYear : Nat} {d : Draft} {i : Instant}
    (h : d.toInstant? thisYear = some i) : i.offset = d.finalOffset := by
  obtain ⟨named, -, h⟩ := Option.bind_eq_some_iff.1 h
  split_ifs at h
  obtain ⟨day, -, h⟩ := Option.bind_eq_some_iff.1 h
  obtain ⟨clock, -, h⟩ := Option.bind_eq_some_iff.1 h
  dsimp only at h
  split at h
  · obtain ⟨_, -, ⟨⟩⟩ := Option.bind_eq_some_iff.1 h
    rfl
  · cases h
    rfl

end Draft

/-- A reader of dates all of whose offsets are numbers of whole minutes. -/
def OffsetsInMinutes (readInstant : Text → Option Instant) : Prop :=
  ∀ {t i}, readInstant t = some i → ∀ seconds ∈ i.offset, 60 ∣ seconds

/-- **Every offset that is read is a number of whole minutes.** -/
theorem offsetsInMinutes_read? (thisYear : Nat) : OffsetsInMinutes (read? thisYear) := by
  intro t i h
  obtain ⟨d, hd, h⟩ := Option.bind_eq_some_iff.1 h
  have hwhole : d.WholeMinutes := Draft.wholeMinutes_readAll? (by rintro _ ⟨⟩) hd
  rw [Draft.offset_toInstant? h, Draft.finalOffset]
  split_ifs
  · rintro _ ⟨⟩
    exact Int.dvd_zero 60
  · exact hwhole

end Vitae.Instant
