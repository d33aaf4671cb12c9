import Vitae.Proofs.Reader.Lookahead

/-!
# The line that closes a block

A block of prose is closed by the first line, after the line it starts in, that is the closing word
and blanks around it. `TextBlock.find` looks for this line from newline to newline and counts
offsets; here the text is cut into its lines first. If line `i` is the first closing line, the lines
before it are the body, and the block ends right behind the closing word of line `i`; without a
closing line everything is body (`TextBlock.find_by_lines`). Text behind a finished closing line
does not change the block.
-/

namespace Vitae.TextBlock

open Text

/-- Line `i` of a text closes a block that starts in line 0. -/
def Closes (t : Text) (i : Nat) : Prop :=
  i ≠ 0 ∧ ∃ line, (lines t)[i]? = some line ∧ trim line = terminator

/-- A block at the start of a text that is closed by line `i`. Its body are the lines before, and it
goes up to the closing word in line `i`, with nothing but blanks around this word. -/
structure ClosedBy (t : Text) (i : Nat) (block : TextBlock) : Prop where
  terminated : block.terminated = true
  body : block.body = trimEnd (linesBefore t i)
  consumed : ∃ a b, AllBlank a ∧ AllBlank b ∧ (lines t)[i]? = some (a ++ terminator ++ b) ∧
    block.consumed = (linesBefore t i ++ '\n' :: (a ++ terminator)).length
  taken : ∃ gap a, AllBlank gap ∧ AllBlank a ∧ '\n' ∉ a ∧
    t.take block.consumed = block.body ++ gap ++ '\n' :: (a ++ terminator)
  left : AllBlank (before '\n' (t.drop block.consumed))

variable {t u v : Text} {i start : Nat}

/-! ### From line to line -/

theorem closes_one (hu : '\n' ∉ u) (v : Text) :
    Closes (u ++ '\n' :: v) 1 ↔ trim (before '\n' v) = terminator := by
  rw [Closes, lines_append_newline hu, List.getElem?_cons_succ, lines_eq_cons,
    List.getElem?_cons_zero]
  simp

theorem closes_succ (hu : '\n' ∉ u) (v : Text) (hi : i ≠ 0) :
    Closes (u ++ '\n' :: v) (i + 1) ↔ Closes v i := by
  simp [Closes, lines_append_newline hu, hi]

theorem terminator?_append_line (hu : '\n' ∉ u) (start : Nat) (v : Text) :
    terminator? start (u ++ v) = terminator? (start + u.length) v := by
  induction u generalizing start with
  | nil => rfl
  | cons c u ih =>
    obtain ⟨hc, hu⟩ := not_or.1 (mt List.mem_cons.2 hu)
    rw [List.cons_append, terminator?]
    refine (if_neg fun h => hc h.1.symm).trans ?_
    rw [ih hu, List.length_cons, Nat.add_right_comm, Nat.add_assoc]

theorem terminator?_of_closes (h : Closes t i) (hfirst : ∀ j < i, ¬Closes t j) (start : Nat) :
    ∃ line, (lines t)[i]? = some line ∧ trim line = terminator ∧
      terminator? start t = some (start + (linesBefore t i).length,
        start + (linesBefore t i).length + 1 + (line.takeWhile isBlank).length +
          terminator.length) := by
  induction t using stop_induction '\n' generalizing i start with
  | last u hu =>
    obtain ⟨hi, line, hget, -⟩ := h
    obtain ⟨i, rfl⟩ := Nat.exists_eq_add_one_of_ne_zero hi
    rw [lines_of_notMem hu] at hget
    cases hget
  | next u v hu ih =>
    obtain ⟨i, rfl⟩ := Nat.exists_eq_add_one_of_ne_zero h.1
    rw [terminator?_append_line hu, terminator?]
    by_cases hi : i = 0
    -- the line behind the newline is the closing line:
    · subst hi
      have hclosing := (closes_one hu v).1 h
      refine ⟨before '\n' v, ?_, hclosing, ?_⟩
      · rw [lines_append_newline hu, lines_eq_cons v]
        rfl
      · rw [linesBefore_one hu]
        exact if_pos ⟨rfl, hclosing⟩
    -- it is not, and the closing line comes later:
    · have hclosing : ¬trim (before '\n' v) = terminator :=
        mt (closes_one hu v).2 (hfirst 1 (by omega))
      have hfirst' : ∀ j < i, ¬Closes v j := by
        intro j hj hv
        exact hfirst (j + 1) (by omega) ((closes_succ hu v hv.1).2 hv)
      obtain ⟨line, hget, htrim, hsome⟩ :=
        ih ((closes_succ hu v hi).1 h) hfirst' (start + u.length + 1)
      refine ⟨line, by rwa [lines_append_newline hu], htrim, ?_⟩
      refine (if_neg fun h => hclosing h.2).trans ?_
      rw [hsome, linesBefore_succ hu v hi, List.length_append, List.length_cons]
      congr 2 <;> omega

/-! ### The block -/

theorem closed_of_not_closes (h : ∀ i, ¬Closes t i) : (Prose.read t).closed = false := by
  refine Prose.closed_eq_false_iff.2 fun line hline htrim => ?_
  obtain ⟨i, hi⟩ := List.mem_iff_getElem?.1 hline
  rw [List.getElem?_tail] at hi
  exact h (i + 1) ⟨Nat.succ_ne_zero i, line, hi, htrim⟩

theorem closedBy_find (h : Closes t i) (hfirst : ∀ j < i, ¬Closes t j) :
    ClosedBy t i (find t) := by
  obtain ⟨line, hget, htrim, hsome⟩ := terminator?_of_closes h hfirst 0
  obtain ⟨i, rfl⟩ := Nat.exists_eq_add_one_of_ne_zero h.1
  obtain ⟨rest, ht, hrest⟩ := exists_eq_line hget
  obtain ⟨b, hb, hline⟩ := Prose.closing_line_eq htrim
  have ha : AllBlank (line.takeWhile isBlank) := allBlank_takeWhile line
  generalize line.takeWhile isBlank = a at hline hsome ha
  subst hline
  have hnewline : '\n' ∉ a := fun hmem => by
    simpa using (of_mem_pieces (List.mem_of_getElem? hget) '\n' (List.mem_append_left _ hmem)).2
  have hcut : t = (linesBefore t (i + 1) ++ '\n' :: (a ++ terminator)) ++ (b ++ rest) := by
    simpa only [List.append_assoc, List.cons_append] using ht
  have hbody : t.take (linesBefore t (i + 1)).length = linesBefore t (i + 1) :=
    (congrArg (List.take _) ht).trans List.take_left
  have hfind : find t = ⟨trimEnd (linesBefore t (i + 1)),
      (linesBefore t (i + 1) ++ '\n' :: (a ++ terminator)).length, true⟩ := by
    rw [find, hsome]
    simp only [Nat.zero_add, hbody, List.length_append, List.length_cons]
    congr 1
    omega
  obtain ⟨gap, hgap, hgapped⟩ := exists_eq_trimEnd (linesBefore t (i + 1))
  rw [hfind]
  refine ⟨rfl, rfl, ⟨a, b, ha, hb, ?_, rfl⟩, ⟨gap, a, hgap, ha, hnewline, ?_⟩, ?_⟩
  · rwa [List.append_assoc]
  · rw [← hgapped]
    exact (congrArg (List.take _) hcut).trans List.take_left
  · have hdrop := (congrArg (List.drop _) hcut).trans List.drop_left
    rw [hdrop]
    refine allBlank_before_append hb ?_
    rw [hrest]
    exact allBlank_nil

theorem find_append_behind (hclosed : (find t).terminated = true)
    (hnewline : '\n' ∈ t.drop (find t).consumed) (u : Text) : find (t ++ u) = find t := by
  obtain ⟨x, v, hxv⟩ := List.append_of_mem hnewline
  -- the closing line ends within `p`:
  obtain ⟨p, hp, hends, hle⟩ : ∃ p, t = p ++ v ∧ Reader.EndsLine p ∧
      (find t).consumed ≤ p.length := by
    refine ⟨t.take (find t).consumed ++ (x ++ ['\n']), ?_, ?_, ?_⟩
    · conv_lhs => rw [← List.take_append_drop (find t).consumed t, hxv]
      simp only [List.append_assoc, List.singleton_append]
    · rw [← List.append_assoc]
      exact List.getLast?_concat
    · rw [List.length_append, List.length_take_of_le (consumed_le t)]
      exact Nat.le_add_right _ _
  rw [hp] at hclosed hle ⊢
  rw [List.append_assoc]
  exact Reader.find_append hclosed hle (.inl (.inr hends)) (v ++ u)

/-- **A block is what stands before its first closing line.** It ends right behind the closing word
of this line. Without a closing line it is the whole text. When the closing line is finished by a
newline, nothing that comes behind changes the block. -/
theorem find_by_lines (t : Text) :
    (∀ i, Closes t i → (∀ j < i, ¬Closes t j) → ClosedBy t i (find t)) ∧
      ((∀ i, ¬Closes t i) → find t = ⟨trimEnd t, t.length, false⟩) ∧
      ∀ u, (find t).terminated = true → '\n' ∈ t.drop (find t).consumed →
        find (t ++ u) = find t := by
  refine ⟨fun i => closedBy_find, fun hopen => ?_, fun u hclosed hnewline =>
    find_append_behind hclosed hnewline u⟩
  have hnone := (Prose.terminator?_none 0 (closed_of_not_closes hopen)).1
  rw [find, hnone]

/-- Neither the first line nor a line that goes on closes a block. -/
theorem find_by_lines_third :
    Closes "end\nthe end\n\tend \nx".toList 2 ∧
      (∀ j < 2, ¬Closes "end\nthe end\n\tend \nx".toList j) ∧
      ClosedBy "end\nthe end\n\tend \nx".toList 2 (find "end\nthe end\n\tend \nx".toList) ∧
      find ("end\nthe end\n\tend \nx".toList ++ "\nend".toList) =
        find "end\nthe end\n\tend \nx".toList := by
  have hcloses : Closes "end\nthe end\n\tend \nx".toList 2 :=
    ⟨by decide, "\tend ".toList, by decide, by decide⟩
  have hfirst : ∀ j < 2, ¬Closes "end\nthe end\n\tend \nx".toList j := by
    rintro j hj ⟨hne, line, hline, htrim⟩
    obtain rfl : j = 1 := by omega
    cases hline
    exact absurd htrim (by decide)
  obtain ⟨hclosed, -, hbehind⟩ := find_by_lines "end\nthe end\n\tend \nx".toList
  exact ⟨hcloses, hfirst, hclosed 2 hcloses hfirst,
    hbehind "\nend".toList (by decide) (by decide)⟩

end Vitae.TextBlock
