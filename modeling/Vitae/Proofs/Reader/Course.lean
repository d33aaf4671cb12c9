import Vitae.Proofs.Reader.Import
import Vitae.Proofs.Text.Cut
import Vitae.Reader.Document

/-!
# The course of a reading

`Reader.course` is the reading of a text from a state with the position left out: what it yields,
where it ends up and what makes it halt do not depend on where in a document the text stands
(`Reader.run_eq_course`). The course of a text is the step of its first character and then the
course of what follows (`Reader.course_cons`).

A course passes through a text point by point: at each the reader is in some state and has some text
to come. `Reader.Reaches` relates a point to the later ones that the reader comes to without
halting. What holds at a point and is kept by every step holds at all later points
(`Reader.Reaches.invariant`), and a course goes on from each of its points
(`Reader.Reaches.course`). From this come the two ways in which characters pass without effect,
blanks between constructs and the inside of a header.
-/

namespace Vitae

/-! ### Yields -/

namespace Yield

variable (a b c : Yield)

@[simp] theorem rows_append : (a ++ b).rows = a.rows ++ b.rows := rfl

@[simp] theorem events_append : (a ++ b).events = a.events ++ b.events := rfl

@[simp] theorem remarks_append : (a ++ b).remarks = a.remarks ++ b.remarks := rfl

@[simp] theorem empty_append : empty ++ a = a := rfl

@[simp] theorem append_empty : a ++ empty = a := by
  change (⟨a.rows ++ [], a.events ++ [], a.remarks ++ []⟩ : Yield) = a
  simp only [List.append_nil]

theorem append_assoc : a ++ b ++ c = a ++ (b ++ c) := by
  change (⟨_, _, _⟩ : Yield) = ⟨_, _, _⟩
  simp only [rows_append, events_append, remarks_append, List.append_assoc]

end Yield

/-! ### Readings without a position -/

namespace Reading

/-- The reading that has already yielded something. -/
def after (y : Yield) (r : Reading) : Reading :=
  { r with yield := y ++ r.yield }

/-- The reading with its position left out. -/
def unplaced (r : Reading) : Reading :=
  { r with position := 0 }

variable (y z : Yield) (r : Reading)

@[simp] theorem yield_after : (r.after y).yield = y ++ r.yield := rfl

@[simp] theorem halt_after : (r.after y).halt = r.halt := rfl

@[simp] theorem after_empty : r.after .empty = r := rfl

theorem after_after : (r.after y).after z = r.after (z ++ y) := by
  simp only [after, Yield.append_assoc]

end Reading

namespace Reader

open Text

variable (env : Settings) (opened : List Text) (nested : Text → Text → Reading)

/-- The reading of a text from a state, without the position. -/
def course (s : ReaderState) (t : Text) : Reading :=
  (run env opened nested 0 s t).unplaced

/-- What an outcome leads to when the text `rest` is still to be read. -/
def resume (o : Outcome) (rest : Text) : Reading :=
  match o.halt with
  | some h => ⟨o.yield, o.state, 0, some h⟩
  | none => (course env opened nested o.state rest).after o.yield

theorem run_unplaced (p q : Nat) (s : ReaderState) (t : Text) :
    (run env opened nested p s t).unplaced = (run env opened nested q s t).unplaced := by
  fun_induction run env opened nested p s t generalizing q with
  | case1 p s o => rw [run]; rfl
  | case2 p s c rest o h ho => rw [run]; simp only [o, ho]; rfl
  | case3 p s c rest o ho r ih =>
    rw [run]
    simp only [o, r, ho]
    have h := ih (q + 1 + o.used)
    simp only [o] at h
    change ((run _ _ _ _ _ _).unplaced.after _) = ((run _ _ _ _ _ _).unplaced.after _)
    rw [h]

/-- **The position does not matter to what is read.** -/
theorem run_eq_course (p : Nat) (s : ReaderState) (t : Text) :
    (run env opened nested p s t).unplaced = course env opened nested s t :=
  run_unplaced env opened nested p 0 s t

theorem course_cons (s : ReaderState) (c : Char) (rest : Text) :
    course env opened nested s (c :: rest) =
      resume env opened nested (step env opened nested s c rest)
        (rest.drop (step env opened nested s c rest).used) := by
  rw [course, run]
  cases h : (step env opened nested s c rest).halt with
  | some h' => simp only [resume, h]; rfl
  | none =>
    simp only [resume, h]
    rw [← run_eq_course env opened nested]
    rfl

theorem resume_moved (s : ReaderState) (rest : Text) :
    resume env opened nested (.moved s) rest = course env opened nested s rest := rfl

/-! ### The points of a course -/

/-- The reader comes from state `s`, with the text `t` to come, to state `s'`, with `t'` to come. On
the way it yields `y` and does not halt. -/
inductive Reaches : ReaderState → Text → Yield → ReaderState → Text → Prop
  | here (s : ReaderState) (t : Text) : Reaches s t .empty s t
  | step {s s' : ReaderState} {c : Char} {rest t' : Text} {y : Yield}
    (halt : (step env opened nested s c rest).halt = none)
    (next : Reaches (step env opened nested s c rest).state
      (rest.drop (step env opened nested s c rest).used) y s' t') :
    Reaches s (c :: rest) ((step env opened nested s c rest).yield ++ y) s' t'

section

variable {env opened nested} {s s' s'' : ReaderState} {t t' t'' : Text} {y z : Yield}

namespace Reaches

theorem trans (h : Reaches env opened nested s t y s' t')
    (h' : Reaches env opened nested s' t' z s'' t'') :
    Reaches env opened nested s t (y ++ z) s'' t'' := by
  induction h with
  | here s t => exact h'
  | step halt next ih =>
    rw [Yield.append_assoc]
    exact .step halt (ih h')

/-- One step further. -/
theorem snoc {c : Char} {rest : Text} (h : Reaches env opened nested s t y s' (c :: rest))
    (halt : (Reader.step env opened nested s' c rest).halt = none) :
    Reaches env opened nested s t (y ++ (Reader.step env opened nested s' c rest).yield)
      (Reader.step env opened nested s' c rest).state
      (rest.drop (Reader.step env opened nested s' c rest).used) := by
  refine h.trans ?_
  have hone := Reaches.step halt (.here _ _)
  rwa [Yield.append_empty] at hone

/-- **What holds at a point and is kept by every step holds at all later points.** -/
theorem invariant {I : Yield → ReaderState → Text → Prop}
    (h : Reaches env opened nested s t y s' t') (start : I .empty s t)
    (keep : ∀ z s' c rest, Reaches env opened nested s t z s' (c :: rest) → I z s' (c :: rest) →
      (Reader.step env opened nested s' c rest).halt = none →
      I (z ++ (Reader.step env opened nested s' c rest).yield)
        (Reader.step env opened nested s' c rest).state
        (rest.drop (Reader.step env opened nested s' c rest).used)) : I y s' t' := by
  -- along the way from a point that has been come to with `x`:
  have hway : ∀ {s₁ t₁ y s' t'}, Reaches env opened nested s₁ t₁ y s' t' →
      ∀ x, Reaches env opened nested s t x s₁ t₁ → I x s₁ t₁ → I (x ++ y) s' t' := by
    intro s₁ t₁ y s' t' hnext
    induction hnext with
    | here s t =>
      intro x _ hI
      rwa [Yield.append_empty]
    | step halt next ih =>
      intro x hx hI
      rw [← Yield.append_assoc]
      exact ih _ (hx.snoc halt) (keep x _ _ _ hx hI halt)
  exact hway h .empty (.here s t) start

theorem suffix (h : Reaches env opened nested s t y s' t') : t' <:+ t := by
  induction h with
  | here s t => exact List.suffix_rfl
  | step halt next ih => exact (ih.trans (List.drop_suffix _ _)).trans (List.suffix_cons _ _)

theorem length_le (h : Reaches env opened nested s t y s' t') : t'.length ≤ t.length :=
  h.suffix.length_le

end Reaches

/-- **A course goes on from each of its points**, whatever has led to it. -/
theorem Reaches.course (h : Reaches env opened nested s t y s' t') :
    course env opened nested s t = (course env opened nested s' t').after y := by
  induction h with
  | here s t => rw [Reading.after_empty]
  | step halt next ih =>
    rw [course_cons, resume, halt, ih]
    exact Reading.after_after _ _ _

/-- What is reached in silence is all that is left. -/
theorem Reaches.course_eq (h : Reaches env opened nested s t .empty s' t') :
    Reader.course env opened nested s t = Reader.course env opened nested s' t' :=
  h.course.trans (Reading.after_empty _)

/-- A step that only changes the state. -/
theorem Reaches.moved {s₁ : ReaderState} {c : Char} {rest : Text}
    (hstep : Reader.step env opened nested s c rest = .moved s₁)
    (next : Reaches env opened nested s₁ rest y s' t') :
    Reaches env opened nested s (c :: rest) y s' t' := by
  have hmoved : Reaches env opened nested s (c :: rest)
      ((Reader.step env opened nested s c rest).yield ++ y) s' t' :=
    .step (by rw [hstep]; rfl) (by rw [hstep]; exact next)
  rwa [hstep] at hmoved

theorem reaches_blank {b : Text} (hb : AllBlank b) (word : Text) (titles : List Text) (t : Text) :
    Reaches env opened nested ⟨.seeking word, titles⟩ (b ++ t) .empty
      ⟨.seeking word, titles⟩ t := by
  induction b with
  | nil => exact .here _ _
  | cons c b ih =>
    obtain ⟨hc, hb⟩ := allBlank_cons.1 hb
    exact .moved (congrArg Outcome.moved (if_pos hc)) (ih hb)

theorem reaches_filling {header : Header} {u : Text} (buffer : Text) (titles : List Text)
    (hu : header.stop ∉ u) (t : Text) :
    Reaches env opened nested ⟨.filling header buffer, titles⟩ (u ++ t) .empty
      ⟨.filling header (buffer ++ u), titles⟩ t := by
  induction u generalizing buffer with
  | nil =>
    rw [List.append_nil]
    exact .here _ _
  | cons c u ih =>
    have hc : c ≠ header.stop := fun hc => hu (hc ▸ List.mem_cons_self)
    have hrest := ih (buffer ++ [c]) fun hmem => hu (List.mem_cons_of_mem _ hmem)
    rw [List.append_assoc, List.singleton_append] at hrest
    exact .moved (by simp only [step, if_neg hc]) hrest

end

/-! ### Between constructs -/

theorem course_seeking_nil (word : Text) (titles : List Text) :
    course env opened nested ⟨.seeking word, titles⟩ [] =
      ⟨.empty, ⟨.seeking word, titles⟩, 0, none⟩ := by
  rw [course, run]
  rfl

theorem course_seeking_cons (word : Text) (titles : List Text) (c : Char) (t : Text) :
    course env opened nested ⟨.seeking word, titles⟩ (c :: t) =
      course env opened nested (collect ⟨.seeking word, titles⟩ word c) t := by
  rw [course_cons]
  rfl

/-- Blanks between constructs do not count. -/
theorem course_blank_append {b : Text} (hb : AllBlank b) (word : Text) (titles : List Text)
    (t : Text) :
    course env opened nested ⟨.seeking word, titles⟩ (b ++ t) =
      course env opened nested ⟨.seeking word, titles⟩ t :=
  (reaches_blank hb word titles t).course_eq

/-! ### Inside a header -/

variable (h : Header) (buffer : Text) (titles : List Text)

theorem course_filling_append {u : Text} (hu : h.stop ∉ u) (t : Text) :
    course env opened nested ⟨.filling h buffer, titles⟩ (u ++ t) =
      course env opened nested ⟨.filling h (buffer ++ u), titles⟩ t :=
  (reaches_filling buffer titles hu t).course_eq

theorem course_filling_stop (t : Text) :
    course env opened nested ⟨.filling h buffer, titles⟩ (h.stop :: t) =
      resume env opened nested (complete env opened nested ⟨.filling h buffer, titles⟩ h buffer t)
        (t.drop (complete env opened nested ⟨.filling h buffer, titles⟩ h buffer t).used) := by
  have hstep : step env opened nested ⟨.filling h buffer, titles⟩ h.stop t =
      complete env opened nested ⟨.filling h buffer, titles⟩ h buffer t := by
    simp only [step, ↓reduceIte]
  rw [course_cons, hstep]

/-- A construct depends on the titles of the open sections and on nothing else of the state. -/
theorem complete_phase (p p' : Phase) (t rest : Text) :
    complete env opened nested ⟨p, titles⟩ h t rest =
      complete env opened nested ⟨p', titles⟩ h t rest := by
  cases h <;> rfl

/-- After a construct the reader seeks the next one; only the identifier of a label leads to another
header. -/
theorem complete_seeks (s : ReaderState) (hl : h ≠ .labelId) (t rest : Text)
    (ho : (complete env opened nested s h t rest).halt = none) :
    (complete env opened nested s h t rest).state.phase = .seeking [] := by
  cases h with
  | title => rfl
  | labelId => exact absurd rfl hl
  | labelContent id => rfl
  | blockId => rfl
  | directive =>
    obtain ⟨o, ho', hcase⟩ := addImport_cases env opened nested s t
    rw [complete, ho'] at ho ⊢
    cases hcase with
    | read => rfl
    | noTarget | cycle | unreadable | halted => cases ho

theorem andThen_finish {o : Outcome} (ho : o.halt = none → o.state.phase = .seeking []) :
    o.andThen (finish env opened nested) = o := by
  obtain ⟨⟨phase, titles⟩, used, yield, halt⟩ := o
  cases halt with
  | some h' => rfl
  | none =>
    obtain rfl : phase = .seeking [] := ho rfl
    simp only [Outcome.andThen, finish, Outcome.moved, Yield.append_empty, Nat.add_zero]

theorem course_of_end {s : ReaderState} (o : Outcome)
    (ho : (finish env opened nested s).andThen (finish env opened nested) = o) :
    course env opened nested s [] = ⟨o.yield, o.state, 0, o.halt⟩ := by
  rw [course, run, ← ho]
  rfl

/-- An outcome that leads back between the constructs is all that is left at the end. -/
theorem resume_nil {o : Outcome} (ho : o.halt = none → o.state.phase = .seeking []) :
    resume env opened nested o [] = ⟨o.yield, o.state, 0, o.halt⟩ := by
  obtain ⟨⟨phase, titles⟩, used, yield, halt⟩ := o
  cases halt with
  | some h' => rfl
  | none =>
    obtain rfl : phase = .seeking [] := ho rfl
    simp only [resume, course_seeking_nil, Reading.after, Yield.append_empty]

/-- The end of a document completes a header as its stop would, with nothing to follow. -/
theorem course_filling_nil :
    course env opened nested ⟨.filling h buffer, titles⟩ [] =
      resume env opened nested (complete env opened nested ⟨.filling h buffer, titles⟩ h buffer [])
        [] := by
  have hend {h : Header} (hl : h ≠ .labelId) (buffer : Text) :
      course env opened nested ⟨.filling h buffer, titles⟩ [] =
        resume env opened nested
          (complete env opened nested ⟨.filling h buffer, titles⟩ h buffer []) [] := by
    have hs := complete_seeks env opened nested h ⟨.filling h buffer, titles⟩ hl buffer []
    have hdone := andThen_finish env opened nested hs
    rw [resume_nil env opened nested hs]
    exact course_of_end env opened nested (s := ⟨.filling h buffer, titles⟩) _ hdone
  by_cases hl : h = .labelId
  -- completing an identifier starts the content of the label, which ends at once as well:
  · subst hl
    have hc : Header.labelContent buffer ≠ .labelId := by simp
    have hs := complete_seeks env opened nested _ ⟨.filling (.labelContent buffer) [], titles⟩ hc
      [] []
    have hdone := andThen_finish env opened nested hs
    have hlabel : (finish env opened nested ⟨.filling .labelId buffer, titles⟩).andThen
        (finish env opened nested) =
          finish env opened nested ⟨.filling (.labelContent buffer) [], titles⟩ := by
      simp only [finish, complete, Outcome.andThen, Outcome.moved, Yield.empty_append, Nat.zero_add]
      rfl
    rw [complete, resume_moved]
    refine (course_of_end env opened nested _ hlabel).trans ?_
    exact (course_of_end env opened nested (s := ⟨.filling (.labelContent buffer) [], titles⟩) _
      hdone).symm
  · exact hend hl buffer

/-- **A header takes the text up to its stop or the end of the document**, and the construct is
completed with what follows. -/
theorem course_filling_from (t : Text) :
    course env opened nested ⟨.filling h buffer, titles⟩ t =
      resume env opened nested
        (complete env opened nested ⟨.seeking [], titles⟩ h (buffer ++ before h.stop t)
          (behind h.stop t))
        ((behind h.stop t).drop (complete env opened nested ⟨.seeking [], titles⟩ h
          (buffer ++ before h.stop t) (behind h.stop t)).used) := by
  by_cases hmem : h.stop ∈ t
  -- with its stop the header is completed by a step, without it by the end of the document:
  · conv_lhs => rw [← before_append_behind hmem]
    rw [course_filling_append env opened nested h buffer titles (not_mem_before _ t),
      course_filling_stop, complete_phase env opened nested h titles _ (.seeking [])]
  · have happend := course_filling_append env opened nested h buffer titles hmem []
    rw [List.append_nil] at happend
    rw [happend, course_filling_nil, complete_phase env opened nested h titles _ (.seeking []),
      before_of_not_mem hmem, behind_of_not_mem hmem, List.drop_nil]

/-- A header from its start. -/
theorem course_filling (t : Text) :
    course env opened nested ⟨.filling h [], titles⟩ t =
      resume env opened nested
        (complete env opened nested ⟨.seeking [], titles⟩ h (before h.stop t) (behind h.stop t))
        ((behind h.stop t).drop (complete env opened nested ⟨.seeking [], titles⟩ h
          (before h.stop t) (behind h.stop t)).used) :=
  course_filling_from env opened nested h [] titles t

/-! ### Whole documents -/

/-- How a document reads the documents that it imports. -/
def importing (env : Settings) (opened : List Text) (path source : Text) : Reading :=
  readWithin env env.library.nesting (path :: opened) source

theorem unplaced_tolerate (r : Reading) : (tolerate env r).unplaced = tolerate env r.unplaced := by
  obtain ⟨yield, state, position, halt⟩ := r
  cases halt with
  | none => rfl
  | some h =>
    cases h with
    | refused refusal =>
      unfold tolerate
      simp only [Reading.unplaced]
      split_ifs <;> rfl
    | badRoot fault => rfl
    | tooDeep => rfl

/-- The reading of a document is its course, with refusals dealt with. -/
theorem read_unplaced (source : Text) :
    (env.read opened source).unplaced =
      tolerate env (course env opened (importing env opened) .initial source) := by
  rw [Settings.read, readWithin, unplaced_tolerate, run_eq_course]
  rfl

end Reader

end Vitae
