import Vitae.Proofs.Reader.Grammar
import Vitae.Proofs.Reader.Lookahead

/-!
# The points of a reading

What `Reader.Reaches` says about a course goes for whole readings, positions included, and for the
documents that they stand in.

* `Reader.Reaches.run` : a reading goes on from each of its points, whatever has led to it.
* `Reader.Reaches.extend` : which points a reader comes to within the text `p` does not depend on
  what stands behind `p`, if no line of `p` goes on there.
* `Reader.exists_point_of_halt` : a reading that halts does so where the directive of an import is
  complete.
-/

namespace Vitae

namespace Reader

open Text

variable {env : Settings} {opened : List Text} {nested : Text → Text → Reading}
variable {s s' : ReaderState} {t t' : Text} {y : Yield}

namespace Reaches

/-- **A reading goes on from each of its points.** -/
theorem run (h : Reaches env opened nested s t y s' t') (position : Nat) :
    run env opened nested position s t =
      (Reader.run env opened nested (position + (t.length - t'.length)) s' t').after y := by
  induction h generalizing position with
  | here s t => simp only [Nat.sub_self, Nat.add_zero, Reading.after_empty]
  | @step s s' c rest t' y halt next ih =>
    have hused := used_step_le env opened nested s c rest
    have hle := next.length_le
    rw [List.length_drop] at hle
    rw [Reader.run]
    simp only [halt]
    have hplace : position + 1 + (Reader.step env opened nested s c rest).used +
        ((rest.drop (Reader.step env opened nested s c rest).used).length - t'.length) =
        position + ((c :: rest).length - t'.length) := by
      simp only [List.length_drop, List.length_cons]
      omega
    have hrest := ih (position + 1 + (Reader.step env opened nested s c rest).used)
    rw [hplace] at hrest
    rw [hrest, ← Reading.after_after]
    rfl

/-- **What stands behind a text does not matter to the points within it.** -/
theorem extend {p v : Text} (h : Reaches env opened nested s (p ++ v) y s' v) (hv : v ≠ [])
    (hp : Severed p v) (w : Text) : Reaches env opened nested s (p ++ w) y s' w := by
  generalize ht : p ++ v = t at h
  induction h generalizing p with
  | here s t =>
    obtain rfl : p = [] := by simpa using ht
    exact .here s w
  | @step s s' c rest v y halt next ih =>
    cases p with
    | nil =>
      -- a step has been taken, so less is to come than before:
      have hle := next.length_le
      obtain rfl : v = c :: rest := ht
      simp only [List.length_drop, List.length_cons] at hle
      omega
    | cons c' p =>
      obtain ⟨rfl, rfl⟩ : c' = c ∧ p ++ v = rest := by simpa using ht
      have hle := next.length_le
      simp only [List.length_drop, List.length_append] at hle
      have hpos := List.length_pos_of_ne_nil hv
      have hused : (Reader.step env opened nested s c' (p ++ v)).used ≤ p.length := by omega
      have hp' : Severed p v := hp.of_suffix (List.suffix_cons c' p)
      have hsame := step_append env opened nested hv hused hp' w
      have hnext := ih hv (hp'.of_suffix (List.drop_suffix _ p))
        (List.drop_append_of_le_length hused).symm
      rw [List.cons_append, ← hsame]
      refine .step (by rw [hsame]; exact halt) ?_
      rw [hsame, List.drop_append_of_le_length hused]
      exact hnext

theorem leads {p v : Text} {titles titles' : List Text}
    (h : Reaches env opened nested ⟨.seeking [], titles⟩ (p ++ v) y ⟨.seeking [], titles'⟩ v)
    (hv : v ≠ []) (hp : Severed p v) : Leads env opened nested titles p titles' y :=
  fun w => (h.extend hv hp w).course

end Reaches

/-! ### Where a reading halts -/

/-- Only the directive of an import makes a completed header halt. -/
theorem halt_complete {header : Header} {buffer rest : Text} {h : Halt}
    (halt : (complete env opened nested s header buffer rest).halt = some h) :
    header = .directive := by
  cases header with
  | directive => rfl
  | title | labelId | labelContent id | blockId => cases halt

theorem finish_directive (titles : List Text) (directive : Text) :
    (finish env opened nested ⟨.filling .directive directive, titles⟩).andThen
        (finish env opened nested) =
      addImport env opened nested ⟨.seeking [], titles⟩ directive :=
  andThen_finish env opened nested
    (complete_seeks env opened nested .directive ⟨.seeking [], titles⟩ (by simp) directive [])

/-- **A reading halts at a point where the directive of an import is complete**, and what makes it
halt is this import. -/
theorem exists_point_of_halt {position : Nat} {h : Halt}
    (halt : (run env opened nested position s t).halt = some h) :
    ∃ y titles directive t',
      Reaches env opened nested s t y ⟨.filling .directive directive, titles⟩ t' ∧
      (t' = [] ∨ t'.head? = some '\n') ∧
      (addImport env opened nested ⟨.seeking [], titles⟩ directive).halt = some h := by
  fun_induction run env opened nested position s t with
  | case1 position s o =>
    obtain ⟨phase, titles⟩ := s
    cases phase with
    | seeking word => cases halt
    | filling header buffer =>
      cases header with
      | directive =>
        have himport := @finish_directive env opened nested titles buffer
        exact ⟨.empty, titles, buffer, [], .here _ _, .inl rfl, himport ▸ halt⟩
      | title | labelId | labelContent id | blockId => cases halt
  | case2 position s c rest o h' ho =>
    obtain rfl : h' = h := by simpa using halt
    obtain ⟨phase, titles⟩ := s
    cases phase with
    | seeking word => cases ho
    | filling header buffer =>
      simp only [o, step] at ho
      split_ifs at ho with hc
      · obtain rfl := halt_complete ho
        exact ⟨.empty, titles, buffer, c :: rest, .here _ _, .inr (congrArg some hc), ho⟩
      · cases ho
  | case3 position s c rest o ho r ih =>
    obtain ⟨y, titles, directive, t', hreach, hend, himport⟩ := ih halt
    exact ⟨_, titles, directive, t', .step ho hreach, hend, himport⟩

/-- A reading that halts at an import halts where the directive ends. -/
theorem run_of_halt {position : Nat} {titles : List Text} {directive : Text} {h : Halt}
    (hend : t = [] ∨ t.head? = some '\n')
    (halt : (addImport env opened nested ⟨.seeking [], titles⟩ directive).halt = some h) :
    run env opened nested position ⟨.filling .directive directive, titles⟩ t =
      ⟨(addImport env opened nested ⟨.seeking [], titles⟩ directive).yield,
        ⟨.filling .directive [], titles⟩, position, some h⟩ := by
  have hstate : (addImport env opened nested ⟨.seeking [], titles⟩ directive).state =
      ⟨.filling .directive [], titles⟩ := by
    obtain ⟨o, ho, hcase⟩ := addImport_cases env opened nested ⟨.seeking [], titles⟩ directive
    rw [ho] at halt ⊢
    cases hcase with
    | read => cases halt
    | noTarget | cycle | unreadable | halted => rfl
  cases t with
  | nil =>
    rw [run, finish_directive, hstate, halt]
  | cons c rest =>
    obtain rfl : c = '\n' := by simpa using hend
    have hstep : step env opened nested ⟨.filling .directive directive, titles⟩ '\n' rest =
        addImport env opened nested ⟨.seeking [], titles⟩ directive := rfl
    rw [run]
    simp only [hstep, halt, hstate]

end Reader

/-! ### Documents -/

/-- What makes the reading of a document halt, before it is decided whether it is an error. -/
def Settings.stop? (env : Settings) (opened : List Text) (source : Text) : Option Halt :=
  (Reader.run env opened (Reader.importing env opened) 0 .initial source).halt

namespace Reader

variable (env : Settings) (opened : List Text) (source : Text)

theorem stop?_eq_course :
    env.stop? opened source = (course env opened (importing env opened) .initial source).halt := rfl

theorem halt_read : (env.read opened source).halt = match env.stop? opened source with
    | some (.refused refusal) => if env.strict then some (.refused refusal) else none
    | halt => halt :=
  Grammar.halt_tolerate env (run env opened (importing env opened) 0 .initial source)

theorem rows_read_eq : (env.read opened source).yield.rows =
    (course env opened (importing env opened) .initial source).yield.rows :=
  Grammar.rows_tolerate env (run env opened (importing env opened) 0 .initial source)

theorem state_tolerate (r : Reading) : (tolerate env r).state = r.state := by
  unfold tolerate
  split
  · split_ifs <;> rfl
  · rfl

theorem position_tolerate (r : Reading) : (tolerate env r).position = r.position := by
  unfold tolerate
  split
  · split_ifs <;> rfl
  · rfl

theorem state_read : (env.read opened source).state =
    (course env opened (importing env opened) .initial source).state :=
  state_tolerate env (run env opened (importing env opened) 0 .initial source)

variable {env opened source}

/-- The reading of a document that is left to the reading `r` after something has been yielded. -/
theorem read_of_course {r : Reading}
    (h : course env opened (importing env opened) .initial source = r.after y) :
    (env.read opened source).yield.rows = y.rows ++ r.yield.rows ∧
      (env.read opened source).state = r.state ∧ env.stop? opened source = r.halt := by
  rw [rows_read_eq, state_read, stop?_eq_course, h]
  exact ⟨rfl, rfl, rfl⟩

end Reader

end Vitae
