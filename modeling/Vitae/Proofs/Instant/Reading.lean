import Vitae.Instant.Reading
import Vitae.Proofs.Instant.Token
import Vitae.Proofs.Text.Cut

/-!
# Reading an instant in digits

The reader of dates goes by the lengths of numbers and the marks around them. In an instant in digits
every number has one reading only: four digits before a hyphen are a year, however small; two digits
on both sides of the next hyphen are its month and its day; six digits behind a whole date, with a
fraction or without, are a time; four digits behind a sign are an offset. Each of these is one lemma
on `Draft.read?`, and together they say that the reader reads all such texts
(`Instant.readsForms_read?`).
-/

namespace Vitae.Instant

open Text

/-! ### Words -/

/-- No word of the list has a digit. -/
def Digitless (entries : List (List String)) : Prop :=
  ∀ words ∈ entries, ∀ word ∈ words, word.toList.any Char.isDigit = false

theorem toLower_of_isDigit {c : Char} (h : c.isDigit = true) : c.toLower = c :=
  dif_neg (of_decide_eq_false (isUpper_of_isDigit h))

theorem wordIndex?_of_digit {entries : List (List String)} (h : Digitless entries) {w : Text}
    {c : Char} (hc : c ∈ w) (hdigit : c.isDigit = true) : wordIndex? entries w = none := by
  refine List.findIdx?_eq_none_iff.2 fun words hwords => ?_
  rw [Bool.eq_false_iff]
  intro hcontains
  have hmem : c ∈ (String.ofList (w.map Char.toLower)).toList := by
    rw [String.toList_ofList]
    exact List.mem_map.2 ⟨c, hc, toLower_of_isDigit hdigit⟩
  have hno := h words hwords _ (List.contains_iff_mem.1 hcontains)
  rw [List.any_eq_true.2 ⟨c, hmem, hdigit⟩] at hno
  cases hno

/-- A number is no word. -/
structure Wordless (w : Text) : Prop where
  month : month? w = none
  filler : isFiller w = false

theorem wordless_of_digits {width n : Nat} {w : Text} (hw : Digits width n w) : Wordless w := by
  obtain ⟨c, hc⟩ := List.exists_mem_of_ne_nil _ hw.ne_nil
  have hdigit := hw.allDigits c hc
  refine ⟨?_, ?_⟩
  · rw [month?, wordIndex?_of_digit (by unfold Digitless; decide) hc hdigit]
    rfl
  · rw [isFiller, wordIndex?_of_digit (by unfold Digitless; decide) hc hdigit]
    rfl

/-! ### Numbers -/

theorem pieces_point_of_allDigits {w : Text} (hw : AllDigits w) : pieces (· == '.') w = [w] :=
  pieces_eq_singleton fun c hc => by
    simpa using ne_of_mem_of_not_mem hc (hw.notMem (by decide))

theorem ofToken?_of_digits {width n : Nat} {w : Text} (hw : Digits width n w) :
    Numeral.ofToken? w = some ⟨n, []⟩ := by
  rw [Numeral.ofToken?, pieces_point_of_allDigits hw.allDigits]
  simp only [hw.value]
  rfl

theorem exists_mapM_digitValue? {w : Text} (hw : AllDigits w) :
    ∃ digits, w.mapM digitValue? = some digits := by
  induction w with
  | nil => exact ⟨[], rfl⟩
  | cons c w ih =>
    obtain ⟨hc, hw⟩ := List.forall_mem_cons.1 hw
    obtain ⟨digits, hdigits⟩ := ih hw
    refine ⟨(c.toNat - 48) :: digits, ?_⟩
    rw [List.mapM_cons, digitValue?_of_isDigit hc, hdigits]
    rfl

/-- A number is read as a number, whatever it is. -/
theorem exists_ofToken? {w : Text} (hw : IsNumber w) : ∃ n, Numeral.ofToken? w = some n := by
  cases hw with
  | whole hdigits hne =>
    rw [Numeral.ofToken?, pieces_point_of_allDigits hdigits]
    simp only [toNat?_of_allDigits hdigits hne]
    exact ⟨_, rfl⟩
  | @decimal u v hu hv hune hvne =>
    obtain ⟨digits, hdigits⟩ := exists_mapM_digitValue? hv
    have hpieces : pieces (· == '.') (u ++ '.' :: v) = [u, v] := by
      rw [pieces_append_cons (by decide), pieces_point_of_allDigits hu,
        pieces_point_of_allDigits hv]
      rfl
    rw [Numeral.ofToken?, hpieces]
    simp only [toNat?_of_allDigits hu hune, toNat?_of_allDigits hv hvne, hdigits]
    exact ⟨_, rfl⟩

theorem all_isDigitLike {w : Text} (hw : AllDigits w) : w.all isDigitLike = true :=
  List.all_eq_true.2 fun c hc => isDigitLike_of_isDigit (hw c hc)

namespace DateParts

variable {n : Nat} {w : Text}

theorem pushDigits?_full (p : DateParts) (hw : Digits 4 n w) :
    p.pushDigits? w = p.withFullYear.pushYear? n := by
  rw [pushDigits?, hw.value, hw.length]
  rfl

theorem pushDigits?_short (p : DateParts) (hw : Digits 2 n w) :
    p.pushDigits? w = some (p.push n) := by
  rw [pushDigits?, hw.value, hw.length]
  rfl

end DateParts

/-! ### Steps of the reader -/

namespace Draft

variable {thisYear : Nat} {d d' : Draft} {before after : List Text}

theorem readAll?_of_step {token : Text} {used : Nat}
    (h : d.read? thisYear before token after = some (d', used)) :
    d.readAll? thisYear before (token :: after) =
      d'.readAll? thisYear ((after.take used).reverse ++ token :: before) (after.drop used) := by
  rw [readAll?, h]
  rfl

/-- The draft that knows the day, with its year marked. -/
def ofDay (day : Day) : Draft :=
  { Draft.empty with parts := ⟨[day.year, day.month, day.day], some 0, none, true⟩ }

theorem readMembers?_day {date : Day} {y m d : Text} (hy : Digits 4 date.year y)
    (hm : Digits 2 date.month m) (hd : Digits 2 date.day d) (rest : List Text) :
    Draft.empty.readMembers? y ['-'] (m :: ['-'] :: d :: rest) = some (ofDay date, 4) := by
  obtain ⟨-, hfiller⟩ := wordless_of_digits hm
  obtain ⟨hname, -⟩ := wordless_of_digits hd
  have hfirst : Draft.empty.parts.pushDigits? y = some ⟨[date.year], some 0, none, true⟩ :=
    DateParts.pushDigits?_full _ hy
  rw [readMembers?, hfirst]
  simp only [Option.bind_eq_bind, Option.bind_some, hfiller, Bool.false_eq_true, ↓reduceIte,
    all_isDigitLike hm.allDigits, DateParts.pushDigits?_short _ hm, List.head?_cons, hname,
    DateParts.pushDigits?_short _ hd]
  rfl

/-- Four digits, and two and two behind hyphens, are year, month and day. -/
theorem read?_day {date : Day} {y m d : Text} (hy : Digits 4 date.year y)
    (hm : Digits 2 date.month m) (hd : Digits 2 date.day d) (rest : List Text) :
    Draft.empty.read? thisYear [] y (['-'] :: m :: ['-'] :: d :: rest) =
      some (ofDay date, 4) := by
  rw [read?, ofToken?_of_digits hy]
  simp only
  rw [readNumber?, hy.length]
  exact readMembers?_day hy hm hd rest

/-! ### Times -/

theorem findIdx?_point {w : Text} (hw : AllDigits w) (u : Text) :
    (w ++ '.' :: u).findIdx? (· == '.') = some w.length := by
  induction w with
  | nil => rfl
  | cons c w ih =>
    have hc : (c == '.') = false :=
      beq_false_of_ne (ne_of_mem_of_not_mem List.mem_cons_self (hw.notMem (by decide)))
    rw [List.cons_append, List.findIdx?_cons, hc, ih (List.forall_mem_cons.1 hw).2]
    rfl

theorem secondsOf?_of_form {f w : Text} {second micro : Nat} (hw : Digits 2 second w)
    (hf : FractionForm f micro) : secondsOf? (w ++ f) = some (second, micro) := by
  cases hf with
  | nil =>
    rw [List.append_nil, secondsOf?, pieces_point_of_allDigits hw.allDigits]
    simp only [hw.value]
    rfl
  | @point f zeros _ hne hvalue =>
    have hdigits : AllDigits f := hvalue.allDigits.of_append
    have hpieces : pieces (· == '.') (w ++ '.' :: f) = [w, f] := by
      rw [pieces_append_cons (by decide), pieces_point_of_allDigits hw.allDigits,
        pieces_point_of_allDigits hdigits]
      rfl
    -- the digits are completed to the same six:
    have htake : (f ++ List.replicate 6 '0').take 6 = f ++ List.replicate zeros '0' := by
      have hlength := hvalue.length
      rw [List.length_append, List.length_replicate] at hlength
      rw [List.take_append, List.take_replicate, List.take_of_length_le (by omega)]
      congr 2
      omega
    rw [secondsOf?, hpieces]
    simp only [htake, hw.value, hvalue.value]
    rfl

/-- A time is a number of six digits, or one with six digits before its point. -/
theorem length_of_form {h m s f : Text} {hour minute second micro : Nat} (hh : Digits 2 hour h)
    (hm : Digits 2 minute m) (hs : Digits 2 second s) (hf : FractionForm f micro) :
    (h ++ (m ++ (s ++ f))).length = 6 ∨ 6 < (h ++ (m ++ (s ++ f))).length ∧
      (h ++ (m ++ (s ++ f))).findIdx? (· == '.') = some 6 := by
  have hlength : (h ++ (m ++ s)).length = 6 := by
    simp only [List.length_append, hh.length, hm.length, hs.length]
  have hdigits := hh.allDigits.append (hm.allDigits.append hs.allDigits)
  cases hf with
  | nil => exact .inl (by rw [List.append_nil, hlength])
  | @point f =>
    have hwhole : h ++ (m ++ (s ++ '.' :: f)) = h ++ (m ++ s) ++ '.' :: f := by
      simp only [List.append_assoc]
    rw [hwhole]
    refine .inr ⟨?_, ?_⟩
    · rw [List.length_append, hlength, List.length_cons]
      omega
    · rw [findIdx?_point hdigits, hlength]

/-- The draft with a time of day. -/
def withClock (d : Draft) (c : Clock) : Draft :=
  { d with hour := some c.hour, minute := some c.minute, second := some c.second,
           micro := some c.micro }

/-- Six digits behind a whole date are a time. -/
theorem read?_clock (hd : d.parts.values.length = 3) {w : Text} {c : Clock} (hw : ClockForm w c)
    (after : List Text) : d.read? thisYear before w after = some (d.withClock c, 0) := by
  obtain ⟨n, hn⟩ := exists_ofToken? (isNumber_of_clockForm hw)
  obtain ⟨hh, hm, hs, hf⟩ := hw
  rename_i h m s f
  have hlength := length_of_form hh hm hs hf
  have htakeHour : (h ++ (m ++ (s ++ f))).take 2 = h := hh.take_append _
  have hdropHour : (h ++ (m ++ (s ++ f))).drop 2 = m ++ (s ++ f) := hh.drop_append _
  have htakeMinute : ((h ++ (m ++ (s ++ f))).drop 2).take 2 = m := by
    rw [hdropHour, hm.take_append]
  have hdrop : (h ++ (m ++ (s ++ f))).drop 4 = s ++ f := by
    rw [← List.drop_drop (i := 2) (j := 2), hdropHour, hm.drop_append]
  generalize h ++ (m ++ (s ++ f)) = w at *
  have hshort : ¬(w.length = 2 ∨ w.length = 4) := by
    rcases hlength with h | ⟨h, -⟩ <;> omega
  have hempty : d.parts.values.isEmpty = false := by
    rw [List.isEmpty_eq_false_iff, ← List.length_pos_iff, hd]
    decide
  rw [read?, hn]
  simp only
  rw [readNumber?]
  dsimp only
  rw [if_neg fun h => hshort h.2.1, if_pos hlength, if_neg (by simp [hempty])]
  simp only [htakeHour, htakeMinute, hdrop, hh.value, hm.value, setSeconds?,
    secondsOf?_of_form hs hf]
  rfl

/-! ### Offsets -/

/-- A sign behind a time is that of an offset. -/
theorem read?_sign (hd : d.hour.isSome = true) {sign : Char} (hsign : sign = '-' ∨ sign = '+') :
    d.read? thisYear before [sign] after = d.readOffset? [sign] after := by
  have hnumber : Numeral.ofToken? [sign] = none := by
    rcases hsign with rfl | rfl <;> decide
  have hwords : weekday? [sign] = none ∧ month? [sign] = none ∧ afternoon? [sign] = none := by
    rcases hsign with rfl | rfl <;> decide
  have hzone : isZoneName [sign] = false := by
    rcases hsign with rfl | rfl <;> decide
  have hmark : (decide ([sign] = ['+']) || decide ([sign] = ['-'])) = true := by
    rcases hsign with rfl | rfl <;> decide
  rw [read?, hnumber]
  simp only [hwords, admitsZone, hzone, hd, hmark, Bool.and_false, Bool.false_and,
    Bool.false_eq_true, ↓reduceIte, Bool.and_self]

/-- Four digits behind a sign are hours and minutes. -/
theorem readOffset?_of_digits (hflip : d.flipSign = false) (sign : Text) {h m : Text}
    {hours minutes : Nat} (hh : Digits 2 hours h) (hm : Digits 2 minutes m) :
    d.readOffset? sign [h ++ m] = some ({ d with
      offset := some (if sign = ['+'] then (hours * 3600 + minutes * 60 : Int)
        else -(hours * 3600 + minutes * 60))
      flipSign := false }, 1) := by
  have hlength : (h ++ m).length = 4 := by
    rw [List.length_append, hh.length, hm.length]
  have hparts : offsetParts? [h ++ m] = some (hours, minutes, 1) := by
    rw [offsetParts?]
    simp only [List.head?_cons, Option.bind_eq_bind, Option.bind_some, hlength, ↓reduceIte,
      hh.take_append, hh.drop_append, hh.value, hm.value]
    rfl
  rw [readOffset?, hparts]
  simp only [Option.bind_eq_bind, Option.bind_some, hflip]
  by_cases hsign : sign = ['+'] <;> simp only [hsign] <;> rfl

/-- The tokens of an offset are read as the offset. -/
theorem readAll?_offset (hhour : d.hour.isSome = true) (hflip : d.flipSign = false)
    (hoffset : d.offset = none) {t : Text} {offset : Option Int} (h : OffsetForm t offset) :
    d.readAll? thisYear before (offsetTokens t) = some { d with offset } := by
  have hsigned {sign : Char} (hsign : sign = '-' ∨ sign = '+') {h m : Text} {hours minutes : Nat}
      (hh : Digits 2 hours h) (hm : Digits 2 minutes m) :
      d.readAll? thisYear before [[sign], h ++ m] = some { d with
        offset := some (if [sign] = ['+'] then (hours * 3600 + minutes * 60 : Int)
          else -(hours * 3600 + minutes * 60)) } := by
    have hstep := readOffset?_of_digits hflip [sign] hh hm
    rw [← read?_sign hhour hsign] at hstep
    rw [readAll?_of_step hstep, ← hflip]
    exact readAll?.eq_1 ..
  cases h with
  | nil => rw [offsetTokens, readAll?, ← hoffset]
  | ahead hour minute => exact hsigned (.inr rfl) hour minute
  | behind hour minute => exact hsigned (.inl rfl) hour minute

/-! ### The whole text -/

theorem resolve?_ofDay (day : Day) : (ofDay day).parts.resolve? =
    some ⟨some day.year, some day.month, some day.day⟩ := by
  have hunmarked : (ofDay day).parts.resolve? = (ofDay day).parts.resolveUnmarked? := rfl
  rw [hunmarked, DateParts.resolveUnmarked?, ofDay]
  simp

/-- A draft that knows a day and a time is an instant on this day, at this time. -/
theorem toInstant?_of_parts {day : Day} {clock : Clock} (hparts : d.parts = (ofDay day).parts)
    (hweekday : d.weekday = none)
    (hclock : Clock.ofFields? (d.hour.getD 0) (d.minute.getD 0) (d.second.getD 0)
      (d.micro.getD 0) = some clock) :
    d.toInstant? thisYear = some ⟨day, clock, d.finalOffset⟩ := by
  have hday : Day.ofFields? day.year day.month day.day = some day :=
    dif_pos ⟨day.year_mem, day.month_mem, day.day_mem⟩
  have hvacant : d.isVacant ⟨some day.year, some day.month, some day.day⟩ = false := rfl
  have hfull : (ofDay day).parts.fullYear = true := rfl
  rw [toInstant?, hparts, resolve?_ofDay]
  simp only [Option.bind_eq_bind, Option.bind_some, hvacant, Bool.false_eq_true, ↓reduceIte, hfull,
    Bool.not_true, Bool.and_false, Option.map_some, Option.getD_some, hday, hclock, hweekday]
  rfl

end Draft

/-- **The reader of dates reads instants in digits**, whatever the year is now. -/
theorem readsForms_read? (thisYear : Nat) : ReadsForms (read? thisYear) := by
  intro t i hform
  have htokens := tokens_form hform
  cases hform with
  | @day _ today date =>
    cases date with
    | mk year month day =>
      have hdate := tokensFrom_day (t := []) year month day (by simp)
      rw [List.append_nil] at hdate
      rw [read?, htokens, hdate, Draft.readAll?_of_step (Draft.read?_day year month day _)]
      simp only [List.drop_succ_cons, List.drop_zero, tokensFrom, Draft.readAll?]
      exact Draft.toInstant?_of_parts rfl rfl rfl
  | @moment _ u v today clock offset date time zone =>
    cases date with
    | mk year month day =>
      obtain ⟨hzone, hmark⟩ := tokensFrom_offset zone
      have hgap (before after : List Text) :
          (Draft.ofDay today).read? thisYear before [' '] after = some (Draft.ofDay today, 0) :=
        rfl
      have htime (before : List Text) : (Draft.ofDay today).readAll? thisYear before
          (u :: offsetTokens v) = some { (Draft.ofDay today).withClock clock with offset } := by
        rw [Draft.readAll?_of_step (Draft.read?_clock rfl time _), List.drop_zero]
        exact Draft.readAll?_offset rfl rfl rfl zone
      rw [read?, htokens, tokensFrom_day year month day (by rintro c ⟨⟩; exact .inr (.inl rfl)),
        tokensFrom_mark (.inr (.inl rfl)), tokensFrom_number (isNumber_of_clockForm time) hmark,
        hzone, Draft.readAll?_of_step (Draft.read?_day year month day _)]
      simp only [List.drop_succ_cons, List.drop_zero]
      rw [Draft.readAll?_of_step (hgap _ _), List.drop_zero, htime]
      exact Draft.toInstant?_of_parts rfl rfl
        (dif_pos ⟨clock.hour_lt, clock.minute_lt, clock.second_lt, clock.micro_lt⟩)

end Vitae.Instant
