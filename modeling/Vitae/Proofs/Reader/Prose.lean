import Vitae.Proofs.Text.Cut
import Vitae.TextBlock

/-!
# Reading prose by lines

A block of prose takes the text up to the newline before the first later line that is `end` and
blanks around it. `Prose.read` says this as a recursion on the text and gives the body, what follows
the closing line, and whether there is a closing line. `Prose.find_eq` is the agreement with
`TextBlock.find`, which counts offsets instead and stops right behind the closing word.
-/

namespace Vitae

open Text TextBlock

/-- A block of prose at the start of a text: its body, what follows its closing line, and whether it
has a closing line. -/
structure Prose where
  body : Text
  rest : Text
  closed : Bool

namespace Prose

/-- The block at the start of a text. -/
def read : Text → Prose
  | [] => ⟨[], [], false⟩
  | c :: t =>
    if c = '\n' ∧ trim (before '\n' t) = terminator then ⟨[], behind '\n' t, true⟩
    else { read t with body := c :: (read t).body }

variable {c : Char} {t v : Text}

theorem read_close (h : trim (before '\n' t) = terminator) :
    read ('\n' :: t) = ⟨[], behind '\n' t, true⟩ := by
  rw [read, if_pos ⟨rfl, h⟩]

theorem read_cons (h : ¬(c = '\n' ∧ trim (before '\n' t) = terminator)) :
    read (c :: t) = { read t with body := c :: (read t).body } := by
  rw [read, if_neg h]

theorem length_rest_le (t : Text) : (read t).rest.length ≤ t.length := by
  induction t with
  | nil => exact le_rfl
  | cons c t ih =>
    by_cases h : c = '\n' ∧ trim (before '\n' t) = terminator
    · obtain ⟨rfl, h⟩ := h
      rw [read_close h, List.length_cons]
      exact (length_behind_le '\n' t).trans (Nat.le_succ _)
    · rw [read_cons h, List.length_cons]
      exact ih.trans (Nat.le_succ _)

theorem rest_of_not_closed (h : (read t).closed = false) : (read t).rest = [] := by
  induction t with
  | nil => rfl
  | cons c t ih =>
    by_cases hc : c = '\n' ∧ trim (before '\n' t) = terminator
    · obtain ⟨rfl, hc⟩ := hc
      rw [read_close hc] at h
      cases h
    · rw [read_cons hc] at h ⊢
      exact ih h

theorem before_body (t : Text) : before '\n' (read t).body = before '\n' t := by
  induction t with
  | nil => rfl
  | cons c t ih =>
    by_cases h : c = '\n' ∧ trim (before '\n' t) = terminator
    · obtain ⟨rfl, h⟩ := h
      rw [read_close h]
      rfl
    · rw [read_cons h]
      simp only [before, List.takeWhile_cons] at ih ⊢
      rw [ih]

theorem closed_read_body (t : Text) : (read (read t).body).closed = false := by
  induction t with
  | nil => rfl
  | cons c t ih =>
    by_cases h : c = '\n' ∧ trim (before '\n' t) = terminator
    · obtain ⟨rfl, h⟩ := h
      rw [read_close h]
      rfl
    · rw [read_cons h]
      -- cutting a body off leaves its first line as it is, so no new closing line comes up:
      have hbody : ¬(c = '\n' ∧ trim (before '\n' (read t).body) = terminator) := by
        rwa [before_body]
      rw [read_cons hbody]
      exact ih

/-! ### Agreement with the offsets -/

theorem closing_line_eq {line : Text} (h : trim line = terminator) :
    ∃ b, AllBlank b ∧ line = line.takeWhile isBlank ++ (terminator ++ b) := by
  obtain ⟨a, b, ha, hb, hline⟩ := exists_eq_trim line
  rw [h] at hline
  have hword : (terminator ++ b).takeWhile isBlank = [] := rfl
  have htake : line.takeWhile isBlank = a := by
    rw [hline, List.takeWhile_append_of_pos ha, hword, List.append_nil]
  exact ⟨b, hb, by rw [htake, ← hline]⟩

theorem drop_closing_line {line u : Text} (h : trim line = terminator) :
    ∃ b, AllBlank b ∧
      (line ++ u).drop ((line.takeWhile isBlank).length + terminator.length) = b ++ u := by
  obtain ⟨b, hb, hline⟩ := closing_line_eq h
  refine ⟨b, hb, ?_⟩
  generalize line.takeWhile isBlank = a at hline ⊢
  rw [hline, ← List.length_append, List.append_assoc, List.append_assoc, ← List.append_assoc a,
    List.drop_left]

theorem terminator?_none (start : Nat) (h : (read t).closed = false) :
    terminator? start t = none ∧ (read t).body = t := by
  induction t generalizing start with
  | nil => exact ⟨rfl, rfl⟩
  | cons c t ih =>
    by_cases hc : c = '\n' ∧ trim (before '\n' t) = terminator
    · obtain ⟨rfl, hc⟩ := hc
      rw [read_close hc] at h
      cases h
    · rw [read_cons hc] at h ⊢
      obtain ⟨hnone, hbody⟩ := ih (start + 1) h
      refine ⟨?_, by rw [hbody]⟩
      rw [terminator?]
      exact (if_neg hc).trans hnone

theorem terminator?_some (start : Nat) (h : (read t).closed = true) :
    ∃ newline past b, terminator? start t = some (start + newline, start + past) ∧
      t.take newline = (read t).body ∧ AllBlank b ∧ t.drop past = b ++ (read t).rest := by
  induction t generalizing start with
  | nil => cases h
  | cons c t ih =>
    by_cases hc : c = '\n' ∧ trim (before '\n' t) = terminator
    · obtain ⟨rfl, hc⟩ := hc
      -- the line ends with a newline or with the text:
      have hsplit : ∃ b, AllBlank b ∧ t = before '\n' t ++ (b ++ behind '\n' t) := by
        by_cases hmem : '\n' ∈ t
        · exact ⟨['\n'], allBlank_newline, (before_append_behind hmem).symm⟩
        · exact ⟨[], allBlank_nil, by
            rw [before_of_not_mem hmem, behind_of_not_mem hmem, List.append_nil, List.append_nil]⟩
      obtain ⟨b, hb, ht⟩ := hsplit
      obtain ⟨b', hb', hdrop⟩ := drop_closing_line (u := b ++ behind '\n' t) hc
      rw [← ht] at hdrop
      refine ⟨0, 1 + (((before '\n' t).takeWhile isBlank).length + terminator.length), b' ++ b,
        ?_, ?_, ?_, ?_⟩
      · rw [terminator?]
        refine (if_pos ⟨rfl, hc⟩).trans ?_
        simp only [Nat.add_zero, Nat.add_assoc]
        rfl
      · rw [read_close hc, List.take_zero]
      · intro c hc'
        exact (List.mem_append.1 hc').elim (hb' c) (hb c)
      · rw [read_close hc, Nat.add_comm 1, List.drop_succ_cons, hdrop, List.append_assoc]
    · rw [read_cons hc] at h ⊢
      obtain ⟨newline, past, b, hsome, hbody, hb, hrest⟩ := ih (start + 1) h
      refine ⟨newline + 1, past + 1, b, ?_, ?_, hb, ?_⟩
      · rw [terminator?]
        refine (if_neg hc).trans ?_
        rw [hsome, Nat.add_right_comm, Nat.add_assoc, Nat.add_right_comm start 1 past,
          Nat.add_assoc]
      · rw [List.take_succ_cons, hbody]
      · rw [List.drop_succ_cons, hrest]

/-- **The offsets of a block are those of its lines.** Behind the closing word stand only blanks
before what follows the closing line. -/
theorem find_eq (t : Text) :
    (find t).body = trimEnd (read t).body ∧ (find t).terminated = (read t).closed ∧
      ∃ b, AllBlank b ∧ t.drop (find t).consumed = b ++ (read t).rest := by
  cases h : (read t).closed with
  | false =>
    obtain ⟨hnone, hbody⟩ := terminator?_none 0 h
    have hfind : find t = ⟨trimEnd t, t.length, false⟩ := by rw [find, hnone]
    rw [hfind, hbody, rest_of_not_closed h]
    exact ⟨rfl, rfl, [], allBlank_nil, by rw [List.drop_length]; rfl⟩
  | true =>
    obtain ⟨newline, past, b, hsome, hbody, hb, hrest⟩ := terminator?_some 0 h
    have hfind : find t = ⟨trimEnd (t.take newline), past, true⟩ := by
      rw [find, hsome]
      simp only [Nat.zero_add]
    rw [hfind, hbody]
    exact ⟨rfl, rfl, b, hb, hrest⟩

/-! ### Closing lines -/

/-- A text closes no block exactly if none of its lines but the first does. -/
theorem closed_eq_false_iff {t : Text} :
    (read t).closed = false ↔ ∀ line ∈ (lines t).tail, trim line ≠ terminator := by
  induction t with
  | nil => simp [read, lines, pieces]
  | cons c t ih =>
    by_cases hc : c = '\n'
    · subst hc
      rw [lines_newline_cons, List.tail_cons, lines_eq_cons t, List.forall_mem_cons, ← ih]
      by_cases hline : trim (before '\n' t) = terminator
      · simp [read_close hline, hline]
      · rw [read_cons fun h => hline h.2]
        simp [hline]
    · rw [tail_lines_cons hc, ← ih, read_cons fun h => hc h.1]

theorem rest_suffix (t : Text) : (read t).rest <:+ t := by
  induction t with
  | nil => exact List.suffix_rfl
  | cons c t ih =>
    by_cases h : c = '\n' ∧ trim (before '\n' t) = terminator
    · obtain ⟨rfl, h⟩ := h
      rw [read_close h]
      exact (behind_suffix '\n' t).trans (List.suffix_cons _ _)
    · rw [read_cons h]
      exact ih.trans (List.suffix_cons _ _)

theorem read_append (hlines : t.getLast? = some '\n') (h : (read t).closed = true) :
    read (t ++ v) = { read t with rest := (read t).rest ++ v } := by
  induction t with
  | nil => cases h
  | cons c t ih =>
    have hmem (hne : t ≠ []) : '\n' ∈ t := by
      refine List.mem_of_getLast? ?_
      rwa [List.getLast?_cons_of_ne_nil hne] at hlines
    by_cases hc : c = '\n' ∧ trim (before '\n' t) = terminator
    · obtain ⟨rfl, hc⟩ := hc
      have hne : t ≠ [] := by
        rintro rfl
        exact absurd hc (by decide)
      rw [read_close hc, List.cons_append, read_close (by rwa [before_append (hmem hne)]),
        behind_append (hmem hne)]
    · rw [read_cons hc] at h ⊢
      have hne : t ≠ [] := by
        rintro rfl
        cases h
      have hrest := ih (by rwa [List.getLast?_cons_of_ne_nil hne] at hlines) h
      rw [List.cons_append, read_cons (by rwa [before_append (hmem hne)]), hrest]

/-- A closing line closes a block, unless the block has been closed before. -/
theorem closed_append_closing (u : Text) {line : Text} (hline : '\n' ∉ line)
    (hend : trim line = terminator) :
    (read (u ++ '\n' :: (line ++ '\n' :: v))).closed = true := by
  induction u with
  | nil => rw [List.nil_append, read_close (by rwa [before_append_cons hline])]
  | cons c u ih =>
    rw [List.cons_append]
    by_cases hc : c = '\n' ∧ trim (before '\n' (u ++ '\n' :: (line ++ '\n' :: v))) = terminator
    · rw [hc.1, read_close hc.2]
    · rwa [read_cons hc]

/-- A block ends at the line that closes it, if no line of its body does. -/
theorem read_closing {u line : Text} (hu : (read u).closed = false) (hline : '\n' ∉ line)
    (hend : trim line = terminator) : read (u ++ '\n' :: (line ++ '\n' :: v)) = ⟨u, v, true⟩ := by
  induction u with
  | nil =>
    rw [List.nil_append, read_close (by rwa [before_append_cons hline]), behind_append_cons hline]
  | cons c u ih =>
    by_cases hc : c = '\n' ∧ trim (before '\n' u) = terminator
    · obtain ⟨rfl, hc⟩ := hc
      rw [read_close hc] at hu
      cases hu
    · rw [read_cons hc] at hu
      rw [List.cons_append, read_cons (by rwa [before_append_stop]), ih hu]

theorem closed_of_append_blank {u b : Text} (hb : AllBlank b) (h : (read (u ++ b)).closed = false) :
    (read u).closed = false := by
  induction u with
  | nil => rfl
  | cons c u ih =>
    by_cases hc : c = '\n' ∧ trim (before '\n' u) = terminator
    · have hline : trim (before '\n' (u ++ b)) = terminator := by
        by_cases hmem : '\n' ∈ u
        · rw [before_append hmem]
          exact hc.2
        · rw [before_append_of_not_mem hmem,
            trim_append_blank fun c h => hb c (mem_of_mem_before h)]
          rw [before_of_not_mem hmem] at hc
          exact hc.2
      rw [List.cons_append, hc.1, read_close hline] at h
      cases h
    · have hcons : (read (u ++ b)).closed = false := by
        rw [List.cons_append] at h
        by_cases hc' : c = '\n' ∧ trim (before '\n' (u ++ b)) = terminator
        · rw [hc'.1, read_close hc'.2] at h
          cases h
        · rwa [read_cons hc'] at h
      rw [read_cons hc]
      exact ih hcons

theorem closed_of_append {a u : Text} (h : (read (a ++ u)).closed = false) :
    (read u).closed = false := by
  induction a with
  | nil => exact h
  | cons c a ih =>
    refine ih ?_
    rw [List.cons_append] at h
    by_cases hc : c = '\n' ∧ trim (before '\n' (a ++ u)) = terminator
    · rw [hc.1, read_close hc.2] at h
      cases h
    · rwa [read_cons hc] at h

theorem closed_trim {t : Text} (h : (read t).closed = false) : (read (trim t)).closed = false := by
  obtain ⟨a, b, -, hb, ht⟩ := exists_eq_trim t
  rw [ht] at h
  exact closed_of_append_blank hb (closed_of_append h)

end Prose

end Vitae
