import Vitae.Proofs.Reader.Builder
import Vitae.Proofs.Reader.Course

/-!
# Builders and the reader

A site reads documents as the reader does. Whatever becomes of the workbench, a builder goes through
the outcomes of `Reader.step`, one after the other; an import takes it many steps, those of the
builder that is set up for it (`Site.follows_step`). So it comes to every point of the course of the
document (`Site.goes_of_reaches`) and to its end with the same yield, in the same state and halted
by the same (`Site.follows_course`), down to every level of imports (`Site.completes`).
-/

namespace Vitae

open Text

namespace Site

variable {env : Settings} {x x' : Site}

/-- The innermost builder has come through an outcome, whatever has become of the workbench and of
the stack. -/
def Follows (x x' : Site) (o : Outcome) (rest : Text) : Prop :=
  x'.outer = x.outer ∧ ∃ stack, x'.inner = { x.inner.after o rest with stack }

/-- From a site at which a document is begun its end is come to, and it has been read as the reader
reads it. -/
def Completes (env : Settings) (levels : Nat) : Prop :=
  ∀ (x : Site) (opened : List Text) (source : Text) (root : Nat),
    x.inner = .start levels opened source root →
      ∃ x', x.Goes env x' ∧ x'.outer = x.outer ∧ x'.inner.Stopped ∧
        Reader.tolerate env x'.inner.soFar = (Reader.readWithin env levels opened source).unplaced

/-- How a builder reads the documents that its document imports. -/
def nested (env : Settings) (b : Builder) (path source : Text) : Reading :=
  Reader.readWithin env b.levels (path :: b.opened) source

theorem follows_leave {b : Builder} {outer : List Builder} {path rest : Text} {r : Reading}
    (houter : x.outer = { b.waiting rest with yield := b.yield ++ Reader.asked env path } :: outer)
    (hr : Reader.tolerate env x.inner.soFar = r.unplaced) :
    ∃ x', x.leave env = some x' ∧ x'.outer = outer ∧
      x'.inner = b.after (Reader.takeOver env b.state path r) rest := by
  unfold leave Reader.takeOver
  rw [houter]
  simp only [hr, Reading.unplaced]
  cases r.halt with
  | none =>
    refine ⟨_, rfl, rfl, ?_⟩
    rw [Builder.after, ← Yield.append_assoc]
    rfl
  | some h =>
    refine ⟨_, rfl, rfl, ?_⟩
    rw [Builder.after, ← Yield.append_assoc]
    rfl

theorem follows_enter (hlevels : Completes env x.inner.levels) (directive rest : Text) :
    ∃ x', (x.enter env directive rest).Goes env x' ∧
      x.Follows x' (Reader.addImport env x.inner.opened (nested env x.inner) x.inner.state
        directive) rest := by
  cases target : Import.target env.root directive with
  | error h =>
    rw [Reader.addImport_of_error env _ _ _ target]
    simp only [enter, target]
    refine ⟨_, .refl, rfl, x.inner.stack, ?_⟩
    rw [Builder.after, Yield.append_empty]
    rfl
  | ok path =>
    by_cases isOpen : path ∈ x.inner.opened
    · have isOpen' : path ∈ (x.inner.waiting rest).opened := isOpen
      rw [Reader.addImport_of_mem env _ _ _ target isOpen]
      simp only [enter, target, if_pos isOpen']
      refine ⟨_, .refl, rfl, x.inner.stack, ?_⟩
      rw [Builder.after, Yield.append_empty]
      rfl
    · have notOpen' : path ∉ (x.inner.waiting rest).opened := isOpen
      rw [Reader.addImport_of_notMem env _ _ _ target isOpen]
      simp only [enter, target, if_neg notOpen']
      cases fetch : env.library.fetch path with
      | error fault => exact ⟨_, .refl, rfl, x.inner.stack, rfl⟩
      | ok source =>
        obtain ⟨x₁, hgoes, houter, hstopped, hreading⟩ := hlevels
          { bench := x.bench.lay Workbench.rootNode
            inner := .start x.inner.levels (path :: x.inner.opened) source x.bench.items.size
            outer := { x.inner.waiting rest with
              yield := x.inner.yield ++ Reader.asked env path } :: x.outer } _ _ _ rfl
        obtain ⟨x₂, hleave, houter₂, hinner₂⟩ := follows_leave houter hreading
        have hnext : x₁.next env = some x₂ := (next_of_stopped hstopped).trans hleave
        exact ⟨x₂, hgoes.trans (goes_next hnext), houter₂, x.inner.stack, hinner₂⟩

theorem follows_take (o : Outcome) (rest : Text) : x.Follows (x.take o rest) o rest :=
  ⟨rfl, x.inner.stack, rfl⟩

theorem follows_seek (word : Text) (c : Char) (rest : Text) :
    x.Follows (x.seek word c rest) (.moved (Reader.collect x.inner.state word c)) rest := by
  unfold seek
  dsimp only
  split_ifs
  · exact ⟨rfl, _, rfl⟩
  · exact follows_take _ rest

theorem follows_complete (hlevels : Completes env x.inner.levels) (header : Header)
    (t rest : Text) :
    ∃ x', (x.complete env header t rest).Goes env x' ∧
      x.Follows x' (Reader.complete env x.inner.opened (nested env x.inner) x.inner.state header t
        rest) rest := by
  cases header with
  | title => exact ⟨_, .refl, rfl, _, rfl⟩
  | labelId => exact ⟨_, .refl, follows_take _ rest⟩
  | labelContent id => exact ⟨_, .refl, follows_take _ rest⟩
  | blockId => exact ⟨_, .refl, follows_take _ rest⟩
  | directive => exact follows_enter hlevels t rest

/-- **A character is taken as the reader takes it.** An import is followed through to its end. -/
theorem follows_step (hlevels : Completes env x.inner.levels) (halt : x.inner.halt = none)
    {c : Char} {rest : Text} (hrest : x.inner.rest = c :: rest) :
    ∃ x', x.Goes env x' ∧
      x.Follows x' (Reader.step env x.inner.opened (nested env x.inner) x.inner.state c rest)
        rest := by
  unfold Reader.step
  cases phase : x.inner.state.phase with
  | seeking word =>
    have hnext : x.next env = some (x.seek word c rest) := by rw [next, halt, phase, hrest]
    exact ⟨_, goes_next hnext, follows_seek word c rest⟩
  | filling header buffer =>
    simp only
    split_ifs with hc
    · obtain ⟨x', hgoes, hfollows⟩ := follows_complete hlevels header buffer rest
      have hnext : x.next env = some (x.complete env header buffer rest) := by
        rw [next, halt, phase, hrest]
        simp only [if_pos hc]
      exact ⟨x', (goes_next hnext).trans hgoes, hfollows⟩
    · have hnext : x.next env = some (x.take (.moved
          { x.inner.state with phase := .filling header (buffer ++ [c]) }) rest) := by
        rw [next, halt, phase, hrest]
        simp only [if_neg hc]
      exact ⟨_, goes_next hnext, follows_take _ rest⟩

theorem soFar_of_follows {o : Outcome} (h : x.Follows x' o [])
    (ho : o.halt = none → o.state.phase = .seeking []) :
    x'.inner.Stopped ∧ x'.inner.soFar =
      (Reader.resume env x.inner.opened (nested env x.inner) o []).after x.inner.yield := by
  obtain ⟨-, stack, hinner⟩ := h
  rw [hinner, Reader.resume_nil env _ _ ho]
  refine ⟨?_, rfl⟩
  cases halt : o.halt with
  | some h => exact .inl (by simp [Builder.after, halt])
  | none => exact .inr ⟨⟨[], ho halt⟩, List.drop_nil⟩

/-- The end of the document completes a header as its stop would. -/
theorem follows_end_filling (hlevels : Completes env x.inner.levels) (halt : x.inner.halt = none)
    (hrest : x.inner.rest = []) {header : Header} {buffer : Text}
    (phase : x.inner.state.phase = .filling header buffer) :
    ∃ x', x.Goes env x' ∧ x.Follows x' (Reader.complete env x.inner.opened (nested env x.inner)
        x.inner.state header buffer []) [] ∧
      Reader.course env x.inner.opened (nested env x.inner) x.inner.state [] =
        Reader.resume env x.inner.opened (nested env x.inner) (Reader.complete env x.inner.opened
          (nested env x.inner) x.inner.state header buffer []) [] := by
  obtain ⟨x', hgoes, hfollows⟩ := follows_complete hlevels header buffer []
  have hnext : x.next env = some (x.complete env header buffer []) := by
    rw [next, halt, phase, hrest]
  have hstate : x.inner.state = ⟨.filling header buffer, x.inner.state.opened⟩ := by
    rw [← phase]
  refine ⟨x', (goes_next hnext).trans hgoes, hfollows, ?_⟩
  rw [hstate]
  exact Reader.course_filling_nil env _ _ header buffer _

theorem follows_end (hlevels : Completes env x.inner.levels) (halt : x.inner.halt = none)
    (hrest : x.inner.rest = []) :
    ∃ x', x.Goes env x' ∧ x'.outer = x.outer ∧ x'.inner.Stopped ∧
      x'.inner.soFar = (Reader.course env x.inner.opened (nested env x.inner) x.inner.state
        []).after x.inner.yield := by
  cases phase : x.inner.state.phase with
  | seeking word =>
    have hstate : x.inner.state = ⟨.seeking word, x.inner.state.opened⟩ := by rw [← phase]
    refine ⟨x, .refl, rfl, .inr ⟨⟨word, phase⟩, hrest⟩, ?_⟩
    rw [hstate, Reader.course_seeking_nil, ← hstate, Reading.after, Yield.append_empty, ← halt]
    rfl
  | filling header buffer =>
    obtain ⟨x₁, hgoes, hfollows, hcourse⟩ := follows_end_filling hlevels halt hrest phase
    by_cases hl : header = .labelId
    -- the identifier of a label leads to its content, which ends at once as well:
    · subst hl
      obtain ⟨houter, stack, hinner⟩ := hfollows
      rw [Reader.complete, Reader.resume_moved] at hcourse
      rw [Reader.complete, Builder.after, Outcome.moved, Yield.append_empty] at hinner
      have hlevels₁ : Completes env x₁.inner.levels := by rwa [hinner]
      have halt₁ : x₁.inner.halt = none := by rw [hinner]
      have hrest₁ : x₁.inner.rest = [] := by rw [hinner, List.drop_nil]
      have phase₁ : x₁.inner.state.phase = .filling (.labelContent buffer) [] := by
        rw [hinner]
        rfl
      obtain ⟨x₂, hgoes₂, hfollows₂, hcourse₂⟩ :=
        follows_end_filling hlevels₁ halt₁ hrest₁ phase₁
      obtain ⟨hstopped, hread⟩ := soFar_of_follows hfollows₂ fun _ => rfl
      refine ⟨x₂, hgoes.trans hgoes₂, hfollows₂.1.trans houter, hstopped, ?_⟩
      rw [hread, ← hcourse₂, hcourse, hinner]
      rfl
    · have hseeks := Reader.complete_seeks env x.inner.opened (nested env x.inner) header
        x.inner.state hl buffer []
      obtain ⟨hstopped, hread⟩ := soFar_of_follows hfollows hseeks
      exact ⟨x₁, hgoes, hfollows.1, hstopped, hcourse ▸ hread⟩

/-- **A document is read to its end** as in the course of the reader. -/
theorem follows_course (hlevels : Completes env x.inner.levels) (halt : x.inner.halt = none) :
    ∃ x', x.Goes env x' ∧ x'.outer = x.outer ∧ x'.inner.Stopped ∧
      x'.inner.soFar = (Reader.course env x.inner.opened (nested env x.inner) x.inner.state
        x.inner.rest).after x.inner.yield := by
  induction hn : x.inner.rest.length using Nat.strong_induction_on generalizing x with
  | _ n ih =>
    cases hrest : x.inner.rest with
    | nil => exact follows_end hlevels halt hrest
    | cons c rest =>
      obtain ⟨x₁, hgoes, houter, stack, hinner⟩ := follows_step hlevels halt hrest
      rw [Reader.course_cons, Reader.resume]
      generalize Reader.step env x.inner.opened (nested env x.inner) x.inner.state c rest = o
        at hinner
      cases ho : o.halt with
      | some h =>
        refine ⟨x₁, hgoes, houter, .inl ?_, ?_⟩ <;> rw [hinner]
        · simp [Builder.after, ho]
        · simp [Builder.after, Builder.soFar, ho, Reading.after]
      | none =>
        have hless : x₁.inner.rest.length < n := by
          rw [← hn, hrest, hinner, Builder.after, List.length_drop, List.length_cons]
          omega
        have hlevels₁ : Completes env x₁.inner.levels := by rwa [hinner]
        have halt₁ : x₁.inner.halt = none := by rwa [hinner]
        obtain ⟨x₂, hgoes₂, houter₂, hstopped₂, hread₂⟩ := ih _ hless hlevels₁ halt₁ rfl
        refine ⟨x₂, hgoes.trans hgoes₂, houter₂.trans houter, hstopped₂, ?_⟩
        rw [hread₂, hinner, Reading.after_after]
        rfl

/-- **A site reads a document as the reader does**, with all documents that it imports. -/
theorem completes (env : Settings) (levels : Nat) : Completes env levels := by
  induction levels with
  | zero =>
    intro x opened source root hstart
    refine ⟨x, .refl, rfl, .inl ?_, ?_⟩
    · rw [hstart]
      exact Option.some_ne_none _
    · rw [hstart]
      rfl
  | succ levels ih =>
    intro x opened source root hstart
    have hlevels : Completes env x.inner.levels := by
      rw [hstart]
      exact ih
    have halt : x.inner.halt = none := by
      rw [hstart]
      rfl
    obtain ⟨x', hgoes, houter, hstopped, hread⟩ := follows_course hlevels halt
    refine ⟨x', hgoes, houter, hstopped, ?_⟩
    rw [hread, hstart, Reader.readWithin, Reader.unplaced_tolerate, Reader.run_eq_course]
    rfl

/-- **The site comes to every point of the course.** -/
theorem goes_of_reaches {s s' : ReaderState} {t t' : Text} {y : Yield}
    (hlevels : Completes env x.inner.levels) (halt : x.inner.halt = none)
    (hstate : x.inner.state = s) (hrest : x.inner.rest = t)
    (h : Reader.Reaches env x.inner.opened (nested env x.inner) s t y s' t') :
    ∃ x', x.Goes env x' ∧ x'.outer = x.outer ∧
      x'.inner.soFar = ⟨x.inner.yield ++ y, s', 0, none⟩ ∧ x'.inner.rest = t' := by
  generalize hopened : x.inner.opened = opened at h
  generalize hnested : nested env x.inner = nested' at h
  induction h generalizing x with
  | here s t =>
    refine ⟨x, .refl, rfl, ?_, hrest⟩
    rw [Builder.soFar, hstate, halt, Yield.append_empty]
  | @step s s' c rest t' y hstep next ih =>
    obtain ⟨x₁, hgoes, houter, stack, hinner⟩ := follows_step hlevels halt hrest
    rw [hstate, hopened, hnested] at hinner
    have hlevels₁ : Completes env x₁.inner.levels := by rwa [hinner]
    obtain ⟨x₂, hgoes₂, houter₂, hread, hrest₂⟩ := ih hlevels₁ (by rwa [hinner])
      (by rw [hinner]; rfl) (by rw [hinner]; rfl) (by rw [hinner]; exact hopened)
      (by rw [hinner]; exact hnested)
    refine ⟨x₂, hgoes.trans hgoes₂, houter₂.trans houter, ?_, hrest₂⟩
    rw [hread, hinner, ← Yield.append_assoc]
    rfl

end Site

end Vitae
