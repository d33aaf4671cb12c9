import Vitae.Instant.Reading
import Vitae.Proofs.Outline.Forest
import Vitae.Proofs.Reader.Point

/-!
# Documents behind each other

A document is finished (`Reader.Finished`) if it ends with a line, the reader gets to its end and is
between constructs there, with no word begun and no section open, and every block of prose on the
way has a closing line. What is written behind a finished document is read as if it stood alone
(`Reader.read_concatenation`).

The one way in which a document could see what stands behind it is the search for the closing line
of a block. In a finished document this search ends within the document, so each step is the same
with or without further text (`Reader.Reaches.append_text`).
-/

namespace Vitae

namespace Reader

open Text

variable {env : Settings} {opened : List Text} {nested : Text → Text → Reading}
variable {s s' : ReaderState} {t : Text} {y : Yield}

/-! ### Closed blocks -/

variable (env opened nested) in
/-- Wherever the identifier of a block is complete on the way through a text, the block has a
closing line. -/
def ClosesBlocks (s : ReaderState) (t : Text) : Prop :=
  ∀ y buffer titles rest,
    Reaches env opened nested s t y ⟨.filling .blockId buffer, titles⟩ (':' :: rest) →
      (TextBlock.find rest).terminated = true

theorem closesBlocks_nil (s : ReaderState) : ClosesBlocks env opened nested s [] := by
  intro y buffer titles rest h
  have hle := h.length_le
  simp at hle

theorem closesBlocks_cons {c : Char} {rest : Text}
    (first : ∀ buffer, s.phase = .filling .blockId buffer → c = ':' →
      (TextBlock.find rest).terminated = true)
    (next : ClosesBlocks env opened nested (step env opened nested s c rest).state
      (rest.drop (step env opened nested s c rest).used)) :
    ClosesBlocks env opened nested s (c :: rest) := by
  intro y buffer titles rest' h
  cases h with
  | here => exact first buffer rfl rfl
  | step halt further => exact next _ buffer titles rest' further

theorem ClosesBlocks.next {c : Char} {rest : Text}
    (h : ClosesBlocks env opened nested s (c :: rest))
    (halt : (step env opened nested s c rest).halt = none) :
    ClosesBlocks env opened nested (step env opened nested s c rest).state
      (rest.drop (step env opened nested s c rest).used) :=
  fun _ buffer titles rest' further => h _ buffer titles rest' (.step halt further)

/-- **A text whose blocks are closed is passed over in the same way, whatever is written behind
it.** -/
theorem Reaches.append_text (h : Reaches env opened nested s t y s' [])
    (hline : t = [] ∨ EndsLine t) (hclosed : ClosesBlocks env opened nested s t) (v : Text) :
    Reaches env opened nested s (t ++ v) y s' v := by
  generalize hend : ([] : Text) = u at h
  induction h with
  | here s t =>
    subst hend
    exact .here s v
  | @step s s' c rest u y halt next ih =>
    have hrest : rest = [] ∨ EndsLine rest := lines_of_suffix hline (List.suffix_cons c rest)
    have hused := used_step_le env opened nested s c rest
    have hsame : Reader.step env opened nested s c (rest ++ v) =
        Reader.step env opened nested s c rest := by
      have happend := step_append_of_closed env opened nested (p := rest) (v := []) (s := s)
        (c := c) ?_ (.inl hrest) v
      · rwa [List.append_nil] at happend
      · rintro buffer hphase rfl
        obtain ⟨phase, titles⟩ := s
        obtain rfl : phase = .filling .blockId buffer := hphase
        rw [List.append_nil]
        exact ⟨hclosed _ buffer titles rest (.here _ _), TextBlock.consumed_le rest⟩
    have hnext := ih (lines_of_suffix hrest (List.drop_suffix _ rest)) (hclosed.next halt) hend
    rw [List.cons_append, ← hsame]
    refine .step (by rw [hsame]; exact halt) ?_
    rw [hsame, List.drop_append_of_le_length hused]
    exact hnext

/-! ### Documents behind a stretch of text -/

theorem tolerate_after (r : Reading) (y : Yield) :
    tolerate env (r.after y) = (tolerate env r).after y := by
  obtain ⟨yield, state, position, halt⟩ := r
  cases halt with
  | none => rfl
  | some h =>
    cases h with
    | refused refusal =>
      simp only [tolerate, Reading.after]
      split_ifs
      · rfl
      · simp only [Yield.append_assoc]
    | badRoot fault => rfl
    | tooDeep => rfl

theorem Leads.read_append (h : Leads env opened (importing env opened) [] t [] y) (r : Text) :
    (env.read opened (t ++ r)).unplaced = (env.read opened r).unplaced.after y := by
  have hcourse : course env opened (importing env opened) .initial (t ++ r) = _ := h r
  rw [read_unplaced, read_unplaced, hcourse, tolerate_after]
  rfl

/-! ### Finished documents -/

variable (env opened) in
/-- A document behind which another one can begin: it ends with a line, the reader gets to its end
and is between constructs there, with no word begun and no section open, and all its blocks have a
closing line. -/
structure Finished (p : Text) : Prop where
  lines : p = [] ∨ EndsLine p
  comes : ∃ y, Reaches env opened (importing env opened) .initial p y .initial []
  closed : ClosesBlocks env opened (importing env opened) .initial p

theorem Finished.leads {p : Text} (h : Finished env opened p) :
    Leads env opened (importing env opened) [] p [] (env.read opened p).yield := by
  obtain ⟨y, hy⟩ := h.comes
  have hleads : Leads env opened (importing env opened) [] p [] y :=
    fun v => (hy.append_text h.lines h.closed v).course
  have hread := (read_of_leads hleads (List.forall_mem_nil _)).1
  rw [List.append_nil] at hread
  rwa [hread]

/-- **What is written behind a finished document is read as if it stood alone.** Whatever the second
document `r` is:

* the whole halts exactly if `r` does, with the same error, and the same refusal stops it early;
* the tree of the whole has the nodes of the first document and then those of `r`;
* the last state, open sections included, is that of `r`;
* the calls of the library and the renderer, and the remarks, are those of the first document and
  then those of `r`. -/
theorem read_concatenation {p : Text} (h : Finished env opened p) (r : Text) :
    let first := env.read opened p
    let second := env.read opened r
    let whole := env.read opened (p ++ r)
    first.halt = none ∧ whole.halt = second.halt ∧
      env.stop? opened (p ++ r) = env.stop? opened r ∧
      whole.tree = first.tree ++ second.tree ∧
      whole.state = second.state ∧
      whole.yield.events = first.yield.events ++ second.yield.events ∧
      whole.yield.remarks = first.yield.remarks ++ second.yield.remarks := by
  intro first second whole
  have hleads := h.leads
  have hwhole : whole.unplaced = second.unplaced.after first.yield := hleads.read_append r
  have hyield : whole.yield = first.yield ++ second.yield := congrArg Reading.yield hwhole
  have hfirst : first.halt = none := by
    have hread := (read_of_leads hleads (List.forall_mem_nil _)).2
    rwa [List.append_nil] at hread
  have hstop : env.stop? opened (p ++ r) = env.stop? opened r := by
    have hcourse := hleads r
    rw [stop?_eq_course, stop?_eq_course, ReaderState.initial, hcourse, Reading.halt_after]
  have htree : whole.tree = first.tree ++ second.tree := by
    have hrows : whole.yield.rows = Outline.rowsOfAll 0 (first.tree ++ second.tree) := by
      rw [hyield, Yield.rows_append, Outline.rowsOfAll_append, Grammar.rows_read env opened p,
        Grammar.rows_read env opened r]
    rw [Reading.tree, hrows, Outline.forest_rowsOfAll]
  have hhalt : whole.halt = second.halt := congrArg (fun r => r.halt) hwhole
  have hstate : whole.state = second.state := congrArg (fun r => r.state) hwhole
  refine ⟨hfirst, hhalt, hstop, htree, hstate, ?_, ?_⟩
  · rw [hyield, Yield.events_append]
  · rw [hyield, Yield.remarks_append]

/-- A document with an `end` outside every section and a block of prose, before one that begins with
an `end`. -/
theorem read_concatenation_ends :
    let env := Settings.standard (Instant.read? 2026) id
    let p := "end\ntext T:\nend\n".toList
    let r := "end\nsection S\n".toList
    Finished env [] p ∧
      (env.read [] (p ++ r)).tree = (env.read [] p).tree ++ (env.read [] r).tree ∧
      (env.read [] (p ++ r)).state = (env.read [] r).state := by
  intro env p r
  have hp : p = ['e', 'n', 'd', '\n', 't', 'e', 'x', 't', ' ', 'T', ':', '\n', 'e', 'n', 'd',
    '\n'] := rfl
  have hfinished : Finished env [] p := by
    -- one step for each character, but for those of the block:
    have hcomes : ∃ y, Reaches env [] (importing env []) .initial p y .initial [] := by
      rw [hp]
      constructor
      iterate 12 apply Reaches.step rfl
      exact .here _ _
    have hclosed : ClosesBlocks env [] (importing env []) .initial p := by
      rw [hp]
      iterate 10 refine closesBlocks_cons (fun _ _ hc => absurd hc (by decide)) ?_
      refine closesBlocks_cons (fun _ _ _ => rfl) ?_
      exact closesBlocks_cons (fun _ _ hc => absurd hc (by decide)) (closesBlocks_nil _)
    exact ⟨.inr rfl, hcomes, hclosed⟩
  obtain ⟨-, -, -, htree, hstate, -⟩ := read_concatenation hfinished r
  exact ⟨hfinished, htree, hstate⟩

end Reader

end Vitae
