import Vitae.Instant.Reading
import Vitae.Proofs.Literal.Quotes
import Vitae.Proofs.Reader.Point

/-!
# Blanks without effect

Blanks between constructs never matter, wherever the reader stands with no header open: in the
middle of a keyword, right behind the word that closes a block, or in front of everything. With
stages that begin by unwrapping, blanks at the very end of a document do not matter either, whatever
is open there. Together this is `blank_insignificant`.

Where blanks come in between two characters, the reader only notices them if a block of prose has
been looking ahead across this place. Either the block is closed in front of the place, and then
only the rest of its closing line is longer (`TextBlock.find_insert_blank`), or it has no closing
line, and then it reaches to the end of the document and loses the blanks there
(`Prose.closed_append_blank`). `Reader.course_cons_blank` is this for one step.
-/

namespace Vitae

open Text

/-! ### Blanks in what a block looks at -/

theorem Prose.trim_ne_terminator {b : Text} (hb : AllBlank b) : trim b ≠ TextBlock.terminator := by
  have htrim : trim b = [] := trim_append_blank (t := []) hb
  rw [htrim]
  decide

theorem Prose.closed_append_blank {u b : Text} (hb : AllBlank b) (h : (read u).closed = false) :
    (read (u ++ b)).closed = false := by
  induction u with
  | nil =>
    -- no line of blanks is a closing line:
    clear h
    rw [List.nil_append]
    induction b with
    | nil => rfl
    | cons c b ih =>
      have hb' := (allBlank_cons.1 hb).2
      rw [read_cons fun hc => trim_ne_terminator (allBlank_before hb' '\n') hc.2]
      exact ih hb'
  | cons c u ih =>
    have hc : ¬(c = '\n' ∧ trim (before '\n' u) = TextBlock.terminator) := by
      rintro ⟨rfl, hc⟩
      rw [read_close hc] at h
      cases h
    have hsame : trim (before '\n' (u ++ b)) = trim (before '\n' u) := by
      by_cases hmem : '\n' ∈ u
      · rw [before_append hmem]
      · rw [before_append_of_not_mem hmem, before_of_not_mem hmem,
          trim_append_blank (allBlank_before hb '\n')]
    rw [read_cons hc] at h
    rw [List.cons_append, read_cons (by rwa [hsame])]
    exact ih h

namespace TextBlock

variable {start newline past : Nat} {q w v x : Text}

theorem find_append_blank (hw : AllBlank w) (hopen : (find q).terminated = false) :
    find (q ++ w) = ⟨(find q).body, q.length + w.length, false⟩ := by
  obtain ⟨-, hclosed, -⟩ := Prose.find_eq q
  rw [hopen] at hclosed
  have hnone := (Prose.terminator?_none 0 hclosed.symm).1
  have hnone' := (Prose.terminator?_none 0 (Prose.closed_append_blank hw hclosed.symm)).1
  simp only [find, hnone, hnone', trimEnd_append hw, List.length_append]

theorem closing_line_within (hline : trim (q ++ x) = terminator)
    (hle : ((q ++ x).takeWhile isBlank).length + terminator.length ≤ q.length) :
    trim q = terminator ∧ AllBlank x := by
  obtain ⟨b, hb, hdrop⟩ := Prose.drop_closing_line (u := []) hline
  rw [List.append_nil, List.append_nil, List.drop_append_of_le_length hle] at hdrop
  have hx : AllBlank x := (allBlank_append.1 (hdrop ▸ hb)).2
  rw [trim_append_blank hx] at hline
  exact ⟨hline, hx⟩

theorem takeWhile_closing_line (hline : trim q = terminator) (x : Text) :
    (q ++ x).takeWhile isBlank = q.takeWhile isBlank := by
  have hlt : (q.takeWhile isBlank).length ≠ q.length := by
    intro hall
    have hblank : AllBlank q := by
      rw [← (List.takeWhile_prefix isBlank).eq_of_length hall]
      exact allBlank_takeWhile q
    exact Prose.trim_ne_terminator hblank hline
  rw [List.takeWhile_append, if_neg hlt]

theorem terminator?_insert_blank (hw : AllBlank w)
    (hsome : terminator? start (q ++ v) = some (newline, past))
    (hpast : past ≤ start + q.length) :
    terminator? start (q ++ (w ++ v)) = some (newline, past) := by
  induction q generalizing start with
  | nil =>
    obtain ⟨a, b, -, hnewline, hword, -⟩ := terminator?_place hsome
    simp only [List.length_nil] at hpast
    omega
  | cons c q ih =>
    rw [List.length_cons] at hpast
    rw [List.cons_append, terminator?] at hsome ⊢
    by_cases hmem : '\n' ∈ q
    -- the line at `c` ends within `q`:
    · have hline (u : Text) : (q ++ u).takeWhile (· ≠ '\n') = before '\n' q := before_append hmem
      simp only [hline] at hsome ⊢
      split_ifs at hsome ⊢ with hc
      · exact hsome
      · exact ih hsome (by omega)
    · have hline (u : Text) : (q ++ u).takeWhile (· ≠ '\n') = q ++ before '\n' u :=
        before_append_of_not_mem hmem
      simp only [hline] at hsome ⊢
      split_ifs at hsome with hc
      -- the line at `c` is the closing line, and blanks come in behind its word:
      · obtain ⟨rfl, hlast⟩ := Prod.mk.inj (Option.some.inj hsome)
        obtain ⟨hword, hx⟩ := closing_line_within hc.2 (by omega)
        have hclosing : trim (q ++ before '\n' (w ++ v)) = terminator := by
          rw [trim_append_blank (allBlank_before_append hw hx), hword]
        rw [if_pos ⟨hc.1, hclosing⟩, takeWhile_closing_line hword, ← hlast,
          takeWhile_closing_line hword]
      -- no closing line comes later within `q`, since `q` has no further newline:
      · obtain ⟨a, b, hab, hnewline, hword, -⟩ := terminator?_place hsome
        have hlt : a.length < q.length := by omega
        have hnext : (q ++ v)[a.length]? = some '\n' := by simp [hab]
        rw [List.getElem?_append_left hlt] at hnext
        exact absurd (List.mem_of_getElem? hnext) hmem

/-- **Blanks behind the closing word of a block do not matter to the block.** -/
theorem find_insert_blank (hw : AllBlank w) (hclosed : (find (q ++ v)).terminated = true)
    (hle : (find (q ++ v)).consumed ≤ q.length) : find (q ++ (w ++ v)) = find (q ++ v) := by
  unfold find at hclosed hle ⊢
  cases h : terminator? 0 (q ++ v) with
  | none =>
    rw [h] at hclosed
    cases hclosed
  | some offsets =>
    obtain ⟨newline, past⟩ := offsets
    rw [h] at hle
    have hpast : past ≤ q.length := hle
    obtain ⟨a, b, -, -, hword, -⟩ := terminator?_place h
    have hnewline : newline ≤ q.length := by omega
    rw [terminator?_insert_blank hw h (by omega)]
    simp only [List.take_append_of_le_length hnewline]

end TextBlock

/-! ### Blanks behind what a header has collected -/

theorem Import.target_append_blank (root : Root) {b : Text} (hb : AllBlank b) (directive : Text) :
    target root (directive ++ b) = target root directive := by
  simp only [target, trim_append_blank hb, Literal.unwrap_append_blank hb]

namespace Reader

variable {env : Settings} {opened : List Text} {nested : Text → Text → Reading}
variable {b w : Text}

theorem literal_append_blank (hstages : env.stages.head? = some .unwrap) (hb : AllBlank b)
    (t : Text) :
    literal env (t ++ b) = literal env t ∧ literalRemarks env (t ++ b) = literalRemarks env t := by
  obtain ⟨stages, hstages⟩ := List.head?_eq_some_iff.1 hstages
  have hunwrap := Literal.unwrap_append_blank hb t
  constructor
  · simp only [literal, hstages, Stage.applyAll, List.foldl_cons, Stage.unwrap, hunwrap]
  · simp only [literalRemarks, hstages, Stage.unreadableDates, Stage.unwrap, hunwrap]

/-- A header is completed in the same way with blanks behind what it has collected. An identifier of
a label is not complete before its content is, so it is left to `addLabel`. -/
theorem complete_append_blank (hstages : env.stages.head? = some .unwrap) (hb : AllBlank b)
    {header : Header} (hl : header ≠ .labelId) (s : ReaderState) (t rest : Text) :
    complete env opened nested s header (t ++ b) rest =
      complete env opened nested s header t rest := by
  obtain ⟨hliteral, hremarks⟩ := literal_append_blank hstages hb t
  cases header with
  | title => simp only [complete, trim_append_blank hb]
  | labelId => exact absurd rfl hl
  | labelContent id => simp only [complete, addLabel, hliteral, hremarks]
  | blockId => simp only [complete, addBlock, hliteral, hremarks, trim_append_blank hb]
  | directive => simp only [complete, addImport, Import.target_append_blank env.root hb]

variable (env opened nested) in
theorem complete_ignores_rest {header : Header} (hb : header ≠ .blockId) (s : ReaderState)
    (t rest rest' : Text) :
    complete env opened nested s header t rest = complete env opened nested s header t rest' ∧
      (complete env opened nested s header t rest).used = 0 := by
  cases header with
  | blockId => exact absurd rfl hb
  | directive => exact ⟨rfl, used_addImport env opened nested s t⟩
  | title | labelId | labelContent id => exact ⟨rfl, rfl⟩

theorem course_end_blank (hstages : env.stages.head? = some .unwrap) (hw : AllBlank w)
    (s : ReaderState) : course env opened nested s w = course env opened nested s [] := by
  obtain ⟨phase, titles⟩ := s
  cases phase with
  | seeking word =>
    have hblank := course_blank_append env opened nested hw word titles []
    rwa [List.append_nil] at hblank
  | filling header buffer =>
    have hcolon : ':' ∉ w := notMem_of_allBlank hw (by decide)
    by_cases hlabel : header = .labelId
    -- the identifier of a label is only complete with its content, which is empty:
    · subst hlabel
      have happend := course_filling_append env opened nested .labelId buffer titles hcolon []
      rw [List.append_nil] at happend
      obtain ⟨hliteral, hremarks⟩ := literal_append_blank hstages hw buffer
      rw [happend, course_filling_nil, course_filling_nil, complete, complete, resume_moved,
        resume_moved]
      change course env opened nested ⟨.filling (.labelContent (buffer ++ w)) [], titles⟩ [] =
        course env opened nested ⟨.filling (.labelContent buffer) [], titles⟩ []
      rw [course_filling_nil, course_filling_nil]
      simp only [complete, addLabel, hliteral, hremarks]
      rfl
    · have hseeks := complete_seeks env opened nested header ⟨.seeking [], titles⟩ hlabel buffer []
      rw [course_filling_from, course_filling_nil,
        complete_append_blank hstages (allBlank_before hw header.stop) hlabel,
        complete_phase env opened nested header titles (.filling header buffer) (.seeking [])]
      by_cases hblock : header = .blockId
      · subst hblock
        have hbehind : behind Header.blockId.stop w = [] := behind_of_not_mem hcolon
        rw [hbehind, List.drop_nil]
      · obtain ⟨hsame, hused⟩ := complete_ignores_rest env opened nested hblock
          ⟨.seeking [], titles⟩ buffer (behind header.stop w) []
        have hblank := resume_blank_append env opened nested (allBlank_behind hw header.stop)
          hseeks []
        rw [List.append_nil] at hblank
        rw [hused, List.drop_zero, hsame, hblank]

/-! ### Blanks in the middle of a document -/

theorem course_cons_blank {s : ReaderState} {c : Char} {q v : Text} (hw : AllBlank w)
    (hused : (step env opened nested s c (q ++ v)).used ≤ q.length)
    (next : let o := step env opened nested s c (q ++ v)
      course env opened nested o.state (q.drop o.used ++ (w ++ v)) =
        course env opened nested o.state (q.drop o.used ++ v)) :
    course env opened nested s (c :: (q ++ (w ++ v))) =
      course env opened nested s (c :: (q ++ v)) := by
  by_cases hopen : ∃ buffer, s.phase = .filling .blockId buffer ∧ c = ':' ∧
      (TextBlock.find (q ++ v)).terminated = false
  -- a block without a closing line reaches to the end, and nothing is read after it:
  · obtain ⟨buffer, hphase, rfl, hterminated⟩ := hopen
    obtain ⟨phase, titles⟩ := s
    obtain rfl : phase = .filling .blockId buffer := hphase
    have hstep (rest : Text) : step env opened nested ⟨.filling .blockId buffer, titles⟩ ':' rest =
        addBlock env ⟨.filling .blockId buffer, titles⟩ buffer rest := rfl
    have hconsumed := consumed_of_not_terminated hterminated
    have hle : (TextBlock.find (q ++ v)).consumed ≤ q.length := hused
    obtain rfl : v = [] := by
      rw [hconsumed, List.length_append] at hle
      exact List.length_eq_zero_iff.1 (by omega)
    rw [List.append_nil] at hterminated hconsumed
    have hfind := TextBlock.find_append_blank hw hterminated
    have hend : (q ++ w).drop (q.length + w.length) = [] :=
      List.drop_of_length_le (by rw [List.length_append])
    rw [List.append_nil, List.append_nil, course_cons, course_cons, hstep, hstep]
    simp only [addBlock, hfind, hterminated, hconsumed, hend, List.drop_length]
    rfl
  · have hsame : step env opened nested s c (q ++ (w ++ v)) =
        step env opened nested s c (q ++ v) := by
      refine step_of_find env opened nested fun buffer hphase hc => ?_
      have hterminated : (TextBlock.find (q ++ v)).terminated = true := by
        by_contra hnot
        exact hopen ⟨buffer, hphase, hc, Bool.eq_false_iff.2 hnot⟩
      obtain ⟨phase, titles⟩ := s
      obtain rfl : phase = .filling .blockId buffer := hphase
      subst hc
      exact TextBlock.find_insert_blank hw hterminated hused
    rw [course_cons, course_cons, hsame, List.drop_append_of_le_length hused,
      List.drop_append_of_le_length hused]
    unfold resume
    split
    · rfl
    · rw [next]

theorem Reaches.course_insert_blank {s : ReaderState} {p v word : Text} {titles : List Text}
    {y : Yield} (h : Reaches env opened nested s (p ++ v) y ⟨.seeking word, titles⟩ v)
    (hw : AllBlank w) :
    Reader.course env opened nested s (p ++ (w ++ v)) =
      Reader.course env opened nested s (p ++ v) := by
  generalize ht : p ++ v = t at h
  generalize hs : (⟨.seeking word, titles⟩ : ReaderState) = s' at h
  induction h generalizing p with
  | here s t =>
    obtain rfl : p = [] := by simpa using ht
    subst hs
    exact course_blank_append env opened nested hw word titles t
  | @step s s' c rest v y halt further ih =>
    have hle := further.length_le
    rw [List.length_drop] at hle
    cases p with
    | nil =>
      -- a step has been taken, so less is to come than before:
      obtain rfl : v = c :: rest := ht
      rw [List.length_cons] at hle
      omega
    | cons c' q =>
      obtain ⟨rfl, rfl⟩ : c' = c ∧ q ++ v = rest := by simpa using ht
      rw [List.length_append] at hle
      have hlimit := used_step_le env opened nested s c' (q ++ v)
      rw [List.length_append] at hlimit
      have hused : (Reader.step env opened nested s c' (q ++ v)).used ≤ q.length := by omega
      have hdrop : (q ++ v).drop (Reader.step env opened nested s c' (q ++ v)).used =
          q.drop (Reader.step env opened nested s c' (q ++ v)).used ++ v :=
        List.drop_append_of_le_length hused
      have hnext := ih hdrop.symm hs
      rw [hdrop] at hnext
      exact course_cons_blank hw hused hnext

/-- **Blanks at the end of a text do not matter**, whatever is open there. -/
theorem course_append_blank (hstages : env.stages.head? = some .unwrap) (hw : AllBlank w)
    (t : Text) (s : ReaderState) :
    course env opened nested s (t ++ w) = course env opened nested s t := by
  induction h : t.length using Nat.strong_induction_on generalizing t s with
  | _ n ih =>
    cases t with
    | nil => exact course_end_blank hstages hw s
    | cons c rest =>
      have hused := used_step_le env opened nested s c rest
      rw [List.length_cons] at h
      have hcons := @course_cons_blank env opened nested w s c rest [] hw
      simp only [List.append_nil] at hcons
      refine hcons hused (ih _ ?_ _ _ rfl)
      rw [List.length_drop]
      omega

end Reader

/-! ### Documents -/

open Reader in
/-- **Blanks between constructs never matter, and blanks at the end of a document do not if literals
are unwrapped first.** In both cases everything that a reading gives but its position is the same:
the tree, the open sections, the halt, the calls and the remarks, and what stops the document early.

1. Blanks `w` may come in between `p` and `v` if the reader of `p ++ v` comes to `v` with no header
   open. It may have spelled a part of a keyword there, or may have passed over a block right up to
   its closing word, or may stand at the start.
2. If the first stage of literals is unwrapping, blanks may be added at the end, whatever header or
   block is open there. -/
theorem blank_insignificant (env : Settings) (opened : List Text) {w : Text} (hw : AllBlank w) :
    (∀ p v, (∃ y word titles,
        Reaches env opened (importing env opened) .initial (p ++ v) y ⟨.seeking word, titles⟩ v) →
      (env.read opened (p ++ (w ++ v))).unplaced = (env.read opened (p ++ v)).unplaced ∧
        env.stop? opened (p ++ (w ++ v)) = env.stop? opened (p ++ v)) ∧
      (env.stages.head? = some .unwrap → ∀ t,
        (env.read opened (t ++ w)).unplaced = (env.read opened t).unplaced ∧
          env.stop? opened (t ++ w) = env.stop? opened t) := by
  have hread {t t' : Text} (hcourse : course env opened (importing env opened) .initial t =
      course env opened (importing env opened) .initial t') :
      (env.read opened t).unplaced = (env.read opened t').unplaced ∧
        env.stop? opened t = env.stop? opened t' := by
    rw [read_unplaced, read_unplaced, stop?_eq_course, stop?_eq_course, hcourse]
    exact ⟨rfl, rfl⟩
  refine ⟨?_, ?_⟩
  · rintro p v ⟨y, word, titles, hy⟩
    exact hread (hy.course_insert_blank hw)
  · intro hstages t
    exact hread (course_append_blank hstages hw t .initial)

open Reader in
/-- A line break right behind the word that closes a block, and one behind the identifier of a label
that the end of the document cuts off. -/
theorem blank_insignificant_behind_block :
    let env := Settings.standard (Instant.read? 2026) id
    let p := "text T:\nend".toList
    let v := "\nlabel A".toList
    let w := " \n".toList
    AllBlank w ∧
      (∃ y word titles,
        Reaches env [] (importing env []) .initial (p ++ v) y ⟨.seeking word, titles⟩ v) ∧
      env.stages.head? = some .unwrap ∧
      (env.read [] (p ++ (w ++ v))).unplaced = (env.read [] (p ++ v)).unplaced ∧
      (env.read [] (p ++ v ++ w)).unplaced = (env.read [] (p ++ v)).unplaced := by
  intro env p v w
  have hw : AllBlank w := allBlank_cons.2 ⟨rfl, allBlank_newline⟩
  have hp : p ++ v =
      't' :: 'e' :: 'x' :: 't' :: ' ' :: 'T' :: ':' :: '\n' :: 'e' :: 'n' :: 'd' :: v := rfl
  have hcomes : ∃ y word titles,
      Reaches env [] (importing env []) .initial (p ++ v) y ⟨.seeking word, titles⟩ v := by
    rw [hp]
    constructor
    refine ⟨[], [], ?_⟩
    iterate 7 apply Reaches.step rfl
    exact .here _ _
  obtain ⟨hbetween, hend⟩ := blank_insignificant env [] hw
  exact ⟨hw, hcomes, rfl, (hbetween p v hcomes).1, (hend rfl (p ++ v)).1⟩

end Vitae
