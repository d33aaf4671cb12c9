import Vitae.Proofs.Text.Trim

/-!
# Cutting a text at a character

`Text.before` and `Text.behind` are the two sides of the first occurrence of a character. Without
an occurrence the first side is the whole text and the second is empty, which is how the end of a
document completes whatever has been started. Cut at newlines, a text is its lines, the first of
which stands before the first newline (`Text.lines_eq_cons`).

What is cut at every occurrence is told from piece to piece (`Text.cut_induction`). The pieces, and
so the lines and the words, are those on both sides of any one cut (`Text.pieces_append_cons`).
-/

namespace Vitae.Text

/-- The text up to the first `stop`, or the whole text. -/
def before (stop : Char) (t : Text) : Text :=
  t.takeWhile (· ≠ stop)

/-- The text after the first `stop`, or nothing. -/
def behind (stop : Char) (t : Text) : Text :=
  (t.dropWhile (· ≠ stop)).drop 1

variable {stop : Char} {t u v : Text}

theorem ne_stop (h : stop ∉ t) : ∀ c ∈ t, decide (c ≠ stop) = true :=
  fun _ hc => decide_eq_true (ne_of_mem_of_not_mem hc h)

theorem before_append_cons (h : stop ∉ u) : before stop (u ++ stop :: v) = u := by
  rw [before, List.takeWhile_append_of_pos (ne_stop h)]
  simp

theorem behind_append_cons (h : stop ∉ u) : behind stop (u ++ stop :: v) = v := by
  rw [behind, List.dropWhile_append_of_pos (ne_stop h)]
  simp

theorem before_append_stop (stop : Char) (u v : Text) :
    before stop (u ++ stop :: v) = before stop u := by
  by_cases h : stop ∈ u
  · obtain ⟨a, b, rfl, ha⟩ := List.eq_append_cons_of_mem h
    rw [List.append_assoc, List.cons_append, before_append_cons ha, before_append_cons ha]
  · rw [before_append_cons h, before, List.takeWhile_eq_self_iff.2 (ne_stop h)]

theorem before_of_not_mem (h : stop ∉ t) : before stop t = t :=
  List.takeWhile_eq_self_iff.2 (ne_stop h)

theorem behind_of_not_mem (h : stop ∉ t) : behind stop t = [] := by
  rw [behind, List.dropWhile_eq_nil_iff.2 (ne_stop h), List.drop_nil]

theorem not_mem_before (stop : Char) (t : Text) : stop ∉ before stop t := by
  intro h
  simpa using List.mem_takeWhile_imp h

/-- A text with a `stop` is its two sides around the first one. -/
theorem before_append_behind (h : stop ∈ t) : before stop t ++ stop :: behind stop t = t := by
  obtain ⟨u, v, rfl, hu⟩ := List.eq_append_cons_of_mem h
  rw [before_append_cons hu, behind_append_cons hu]

theorem mem_of_mem_before {c : Char} (h : c ∈ before stop t) : c ∈ t :=
  (List.takeWhile_prefix _).subset h

theorem behind_suffix (stop : Char) (t : Text) : behind stop t <:+ t :=
  (List.drop_suffix 1 _).trans (List.dropWhile_suffix _)

theorem length_behind_le (stop : Char) (t : Text) : (behind stop t).length ≤ t.length :=
  (behind_suffix stop t).length_le

theorem before_append (h : stop ∈ t) : before stop (t ++ v) = before stop t := by
  conv_lhs => rw [← before_append_behind h, List.append_assoc, List.cons_append]
  exact before_append_cons (not_mem_before stop t)

theorem behind_append (h : stop ∈ t) : behind stop (t ++ v) = behind stop t ++ v := by
  conv_lhs => rw [← before_append_behind h, List.append_assoc, List.cons_append]
  exact behind_append_cons (not_mem_before stop t)

theorem before_append_of_not_mem (h : stop ∉ t) : before stop (t ++ v) = t ++ before stop v := by
  rw [before, List.takeWhile_append_of_pos (ne_stop h)]
  rfl

/-! ### Blanks on both sides -/

theorem allBlank_before {b : Text} (hb : AllBlank b) (stop : Char) :
    AllBlank (before stop b) :=
  fun c hc => hb c (mem_of_mem_before hc)

theorem allBlank_behind {b : Text} (hb : AllBlank b) (stop : Char) :
    AllBlank (behind stop b) :=
  fun c hc => hb c ((behind_suffix stop b).subset hc)

theorem allBlank_before_append {w v : Text} {stop : Char} (hw : AllBlank w)
    (hv : AllBlank (before stop v)) : AllBlank (before stop (w ++ v)) := by
  by_cases hmem : stop ∈ w
  · rw [before_append hmem]
    exact allBlank_before hw stop
  · rw [before_append_of_not_mem hmem]
    exact allBlank_append.2 ⟨hw, hv⟩

/-! ### Pieces -/

theorem pieces_ne_nil (cut : Char → Bool) (t : Text) : pieces cut t ≠ [] := by
  cases t with
  | nil => exact List.cons_ne_nil _ _
  | cons c t =>
    unfold pieces
    split_ifs
    · exact List.cons_ne_nil _ _
    · split <;> exact List.cons_ne_nil _ _

/-- A text is cut at each of the characters. -/
theorem pieces_append_cons {cut : Char → Bool} {c : Char} (hc : cut c = true) (a b : Text) :
    pieces cut (a ++ c :: b) = pieces cut a ++ pieces cut b := by
  induction a with
  | nil => simp [pieces, hc]
  | cons x a ih =>
    obtain ⟨p, ps, hps⟩ := List.exists_cons_of_ne_nil (pieces_ne_nil cut a)
    rw [hps] at ih
    by_cases hx : cut x = true <;> simp [pieces, hx, ih, hps]

theorem of_mem_pieces {cut : Char → Bool} {p t : Text} (h : p ∈ pieces cut t) :
    ∀ c ∈ p, c ∈ t ∧ cut c = false := by
  induction t generalizing p with
  | nil =>
    rw [List.mem_singleton.1 h]
    exact List.forall_mem_nil _
  | cons x t ih =>
    have hfurther {q : Text} (hq : q ∈ pieces cut t) : ∀ c ∈ q, c ∈ x :: t ∧ cut c = false :=
      fun c hc => ⟨List.mem_cons_of_mem x (ih hq c hc).1, (ih hq c hc).2⟩
    obtain ⟨q, qs, hqs⟩ := List.exists_cons_of_ne_nil (pieces_ne_nil cut t)
    rw [hqs] at hfurther
    by_cases hx : cut x = true
    · simp only [pieces, hx, ↓reduceIte, hqs, List.mem_cons] at h
      rcases h with rfl | h
      · exact List.forall_mem_nil _
      · exact hfurther (List.mem_cons.2 h)
    · simp only [pieces, hx, Bool.false_eq_true, ↓reduceIte, hqs, List.mem_cons] at h
      rcases h with rfl | h
      · exact List.forall_mem_cons.2
          ⟨⟨List.mem_cons_self, Bool.not_eq_true _ ▸ hx⟩, hfurther List.mem_cons_self⟩
      · exact hfurther (List.mem_cons_of_mem q h)

theorem pieces_eq_singleton {cut : Char → Bool} {t : Text} (h : ∀ c ∈ t, cut c = false) :
    pieces cut t = [t] := by
  induction t with
  | nil => rfl
  | cons x t ih =>
    obtain ⟨hx, ht⟩ := List.forall_mem_cons.1 h
    simp [pieces, hx, ih ht]

/-- Induction along the pieces of a text: what holds of a text without a cut, and of a piece and a
cut in front of any text that it holds of, holds of every text. -/
theorem cut_induction (cut : Char → Bool) {motive : Text → Prop}
    (last : ∀ a, (∀ x ∈ a, cut x = false) → motive a)
    (next : ∀ a c b, (∀ x ∈ a, cut x = false) → cut c = true → motive b → motive (a ++ c :: b))
    (t : Text) : motive t := by
  suffices h : ∀ a, (∀ x ∈ a, cut x = false) → motive (a ++ t) from h [] (List.forall_mem_nil _)
  induction t with
  | nil =>
    intro a ha
    rw [List.append_nil]
    exact last a ha
  | cons c t ih =>
    intro a ha
    by_cases hc : cut c = true
    · exact next a c t ha hc (ih [] (List.forall_mem_nil _))
    · have hnext := ih (a ++ [c]) (List.forall_mem_append.2
        ⟨ha, List.forall_mem_singleton.2 (Bool.not_eq_true _ ▸ hc)⟩)
      rwa [List.append_assoc, List.singleton_append] at hnext

/-- Induction along the occurrences of a character. -/
theorem stop_induction (stop : Char) {motive : Text → Prop} (last : ∀ a, stop ∉ a → motive a)
    (next : ∀ a b, stop ∉ a → motive b → motive (a ++ stop :: b)) (t : Text) : motive t := by
  have hfree {a : Text} (ha : ∀ x ∈ a, (x == stop) = false) : stop ∉ a :=
    fun hmem => by simpa using ha stop hmem
  induction t using cut_induction (· == stop) with
  | last a ha => exact last a (hfree ha)
  | next a c b ha hc ih =>
    obtain rfl : c = stop := by simpa using hc
    exact next a b (hfree ha) ih

/-! ### Words -/

/-- The words of a text are those on both sides of any blank. -/
theorem words_append_blank {c : Char} (hc : isBlank c = true) (a b : Text) :
    words (a ++ c :: b) = words a ++ words b := by
  rw [words, pieces_append_cons hc, List.filter_append]
  rfl

theorem words_of_unbroken {a : Text} (ha : ∀ c ∈ a, isBlank c = false) :
    words a = if a.isEmpty then [] else [a] := by
  rw [words, pieces_eq_singleton ha]
  cases a <;> rfl

/-! ### Lines -/

theorem lines_newline_cons (t : Text) : lines ('\n' :: t) = [] :: lines t := rfl

/-- The first line of a text is what stands before its first newline. -/
theorem lines_eq_cons (t : Text) : lines t = before '\n' t :: (lines t).tail := by
  induction t with
  | nil => rfl
  | cons c t ih =>
    by_cases hc : c = '\n'
    · subst hc
      rfl
    · have hpiece : lines (c :: t) = (c :: before '\n' t) :: (lines t).tail := by
        unfold lines at ih ⊢
        rw [pieces, ih]
        simp [hc]
      have hbefore : before '\n' (c :: t) = c :: before '\n' t := by
        simp [before, hc]
      rw [hpiece, hbefore, List.tail_cons]

theorem tail_lines_cons {c : Char} (hc : c ≠ '\n') (t : Text) :
    (lines (c :: t)).tail = (lines t).tail := by
  have h := lines_eq_cons t
  unfold lines at h ⊢
  rw [pieces, h]
  simp [hc]

theorem lines_of_notMem (h : '\n' ∉ t) : lines t = [t] :=
  pieces_eq_singleton fun _ hc => by simpa using ne_of_mem_of_not_mem hc h

theorem lines_append_newline (h : '\n' ∉ u) (v : Text) :
    lines (u ++ '\n' :: v) = u :: lines v := by
  rw [lines, pieces_append_cons (by decide), ← lines, ← lines, lines_of_notMem h]
  rfl

/-- The lines of a text before a line, with newlines between them. -/
def linesBefore (t : Text) (i : Nat) : Text :=
  joinWith ['\n'] ((lines t).take i)

theorem linesBefore_one (h : '\n' ∉ u) (v : Text) : linesBefore (u ++ '\n' :: v) 1 = u := by
  rw [linesBefore, lines_append_newline h, List.take_succ_cons, List.take_zero]
  exact List.intercalate_singleton

theorem linesBefore_succ (h : '\n' ∉ u) (v : Text) {i : Nat} (hi : i ≠ 0) :
    linesBefore (u ++ '\n' :: v) (i + 1) = u ++ '\n' :: linesBefore v i := by
  obtain ⟨i, rfl⟩ := Nat.exists_eq_add_one_of_ne_zero hi
  rw [linesBefore, linesBefore, lines_append_newline h, List.take_succ_cons, lines_eq_cons v,
    List.take_succ_cons, joinWith, joinWith, List.intercalate_cons_cons, List.append_assoc,
    List.singleton_append]

/-- Every line but the first stands behind a newline, up to the next one. -/
theorem exists_eq_line {i : Nat} {line : Text} (h : (lines t)[i + 1]? = some line) :
    ∃ rest, t = linesBefore t (i + 1) ++ '\n' :: (line ++ rest) ∧ before '\n' rest = [] := by
  induction t using stop_induction '\n' generalizing i with
  | last a ha =>
    rw [lines_of_notMem ha] at h
    cases h
  | next a v ha ih =>
    rw [lines_append_newline ha, List.getElem?_cons_succ] at h
    cases i with
    | zero =>
      rw [lines_eq_cons, List.getElem?_cons_zero] at h
      obtain rfl := Option.some.inj h
      rw [linesBefore_one ha]
      by_cases hmem : '\n' ∈ v
      · exact ⟨'\n' :: behind '\n' v, by rw [before_append_behind hmem], rfl⟩
      · exact ⟨[], by rw [before_of_not_mem hmem, List.append_nil], rfl⟩
    | succ i =>
      obtain ⟨rest, hv, hrest⟩ := ih h
      refine ⟨rest, ?_, hrest⟩
      conv_lhs => rw [hv]
      rw [linesBefore_succ ha v (Nat.succ_ne_zero i), List.append_assoc, List.cons_append]

end Vitae.Text
