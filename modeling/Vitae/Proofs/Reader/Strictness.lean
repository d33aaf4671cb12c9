import Vitae.Proofs.Reader.Grammar

/-!
# Strict and tolerant readers

A strict reader raises the first refusal; a tolerant one notes it, keeps what the document has given
so far and goes on in the document that imports it. Up to the first refusal the two are in lockstep
(`Reader.Lockstep`): either they have yielded the same and nobody has refused anything, or the
strict one has halted and what it has yielded is a beginning of what the tolerant one yields, whose
first remark about an early stop is about the same refusal. The relation is kept by a statement
(`Reader.addImport_lockstep`), by a document (`Reader.course_lockstep`), and through imports
(`Reader.readWithin_lockstep`).
-/

namespace Vitae

/-- The refusal that a remark about an early stop is about. -/
def Remark.stop? : Remark → Option Refusal
  | .stoppedEarly refusal => some refusal
  | _ => none

/-- The refusal of the first early stop that is remarked on. -/
def Yield.firstStop? (y : Yield) : Option Refusal :=
  y.remarks.findSome? Remark.stop?

namespace Yield

@[simp] theorem firstStop?_append (a b : Yield) :
    (a ++ b).firstStop? = a.firstStop?.or b.firstStop? :=
  List.findSome?_append

theorem firstStop?_eq_none_iff {y : Yield} :
    y.firstStop? = none ↔ ∀ refusal, .stoppedEarly refusal ∉ y.remarks := by
  unfold firstStop?
  rw [List.findSome?_eq_none_iff]
  constructor
  · intro h refusal hmem
    cases h _ hmem
  · intro h remark hmem
    cases remark with
    | stoppedEarly refusal => exact absurd hmem (h refusal)
    | unreadableDate | unterminatedBlock | readingImport | emptyImport => rfl

end Yield

namespace Reader

/-- How the readings of a strict and a tolerant reader stand to each other while a document is being
read. -/
inductive Lockstep (strict tolerant : Reading) : Prop
  | same (yield : tolerant.yield = strict.yield) (halt : tolerant.halt = strict.halt)
    (calm : strict.yield.firstStop? = none)
  | parted (refusal : Refusal) (halt : strict.halt = some (.refused refusal))
    (rows : strict.yield.rows <+: tolerant.yield.rows)
    (events : strict.yield.events <+: tolerant.yield.events)
    (stop : tolerant.yield.firstStop? = some refusal)

variable {strict tolerant : Reading}

/-- What the strict reader has is a beginning of what the tolerant one has. -/
theorem Lockstep.rows_prefix (h : Lockstep strict tolerant) :
    strict.yield.rows <+: tolerant.yield.rows := by
  cases h with
  | same yield halt calm => exact yield ▸ List.prefix_rfl
  | parted refusal halt rows events stop => exact rows

theorem Lockstep.events_prefix (h : Lockstep strict tolerant) :
    strict.yield.events <+: tolerant.yield.events := by
  cases h with
  | same yield halt calm => exact yield ▸ List.prefix_rfl
  | parted refusal halt rows events stop => exact events

/-- Once the tolerant reader has dealt with all refusals, the first that it has noted is the one
that the strict reader raises. -/
theorem Lockstep.refused_iff (h : Lockstep strict tolerant)
    (hsettled : ∀ refusal, tolerant.halt ≠ some (.refused refusal)) (refusal : Refusal) :
    strict.halt = some (.refused refusal) ↔ tolerant.yield.firstStop? = some refusal := by
  cases h with
  | same yield halt calm =>
    rw [yield, calm, ← halt]
    exact ⟨fun h => absurd h (hsettled refusal), by rintro ⟨⟩⟩
  | parted refusal' halt rows events stop =>
    rw [halt, stop]
    simp only [Option.some_inj, Halt.refused.injEq]

theorem Lockstep.eq_of_halt (h : Lockstep strict tolerant) (hend : strict.halt = none) :
    tolerant.halt = none ∧ tolerant.yield = strict.yield := by
  cases h with
  | same yield halt calm => exact ⟨halt.trans hend, yield⟩
  | parted refusal halt rows events stop => cases hend.symm.trans halt

theorem Lockstep.after (h : Lockstep strict tolerant) {y : Yield}
    (hy : y.firstStop? = none) : Lockstep (strict.after y) (tolerant.after y) := by
  cases h with
  | same yield halt calm =>
    refine .same ?_ halt ?_
    · rw [Reading.yield_after, Reading.yield_after, yield]
    · rw [Reading.yield_after, Yield.firstStop?_append, hy, calm]
      rfl
  | parted refusal halt rows events stop =>
    refine .parted refusal halt ?_ ?_ ?_
    · exact (List.prefix_append_right_inj _).2 rows
    · exact (List.prefix_append_right_inj _).2 events
    · rw [Reading.yield_after, Yield.firstStop?_append, hy, stop]
      rfl

variable (env : Settings)

theorem tolerate_strict (r : Reading) : tolerate { env with strict := true } r = r := by
  unfold tolerate
  split <;> rfl

theorem tolerate_refused {r : Reading} {refusal : Refusal} (h : r.halt = some (.refused refusal)) :
    tolerate { env with strict := false } r =
      { r with yield := r.yield ++ .noted [.stoppedEarly refusal], halt := none } := by
  unfold tolerate
  simp only [h, Bool.false_eq_true, ↓reduceIte]

theorem tolerate_of_ne {r : Reading} (h : ∀ refusal, r.halt ≠ some (.refused refusal)) :
    tolerate { env with strict := false } r = r := by
  unfold tolerate
  split
  · rename_i refusal hr
    exact absurd hr (h refusal)
  · rfl

theorem Lockstep.tolerate (h : Lockstep strict tolerant) :
    Lockstep (tolerate { env with strict := true } strict)
      (tolerate { env with strict := false } tolerant) := by
  rw [tolerate_strict]
  by_cases hr : ∃ refusal, tolerant.halt = some (.refused refusal)
  · obtain ⟨refusal, hr⟩ := hr
    rw [tolerate_refused env hr]
    cases h with
    | same yield halt calm =>
      refine .parted refusal (halt.symm.trans hr) ?_ ?_ ?_
      · exact yield ▸ List.prefix_append _ _
      · exact yield ▸ List.prefix_append _ _
      · rw [Yield.firstStop?_append, yield, calm]
        rfl
    | parted refusal' halt rows events stop =>
      refine .parted refusal' halt (rows.trans (List.prefix_append _ _))
        (events.trans (List.prefix_append _ _)) ?_
      rw [Yield.firstStop?_append, stop]
      rfl
  · rw [tolerate_of_ne env fun refusal h => hr ⟨refusal, h⟩]
    exact h

/-! ### One statement -/

variable (opened : List Text) {nestedStrict nestedTolerant : Text → Text → Reading}

theorem stoppedEarly_notMem_literalRemarks (t : Text) (refusal : Refusal) :
    .stoppedEarly refusal ∉ literalRemarks env t := by
  intro h
  obtain ⟨literal, -, h⟩ := List.mem_map.1 h
  cases h

theorem firstStop?_asked (path : Text) : (asked env path).firstStop? = none := by
  unfold asked fetchRemarks
  split_ifs <;> rfl

theorem firstStop?_imported (d : Nat) (y : Yield) : (y.imported d).firstStop? = y.firstStop? := rfl

theorem firstStop?_withoutRows (y : Yield) : y.withoutRows.firstStop? = y.firstStop? := rfl

/-- How the outcomes of a statement stand to each other: they are the same, or the strict reader
halts with the refusal that the tolerant reader has noted. -/
inductive LockstepOutcome (strict tolerant : Outcome) : Prop
  | same (eq : tolerant = strict) (calm : strict.yield.firstStop? = none)
  | parted (refusal : Refusal) (halt : strict.halt = some (.refused refusal))
    (rows : strict.yield.rows = []) (events : strict.yield.events <+: tolerant.yield.events)
    (stop : tolerant.yield.firstStop? = some refusal)

theorem takeOver_lockstep (h : Lockstep strict tolerant)
    (s : ReaderState) (path : Text) :
    LockstepOutcome (takeOver env s path strict) (takeOver env s path tolerant) := by
  cases h with
  | same yield halt calm =>
    refine .same ?_ ?_
    · unfold takeOver
      rw [yield, halt]
    · unfold takeOver
      split <;>
        simp only [Yield.firstStop?_append, firstStop?_asked, firstStop?_withoutRows,
          firstStop?_imported, calm, Option.or_none]
  | parted refusal halt rows events stop =>
    have hstrict : takeOver env s path strict = ⟨s.fill .directive, 0,
        asked env path ++ (strict.yield.imported s.depth).withoutRows,
        some (.refused refusal)⟩ := by
      unfold takeOver
      rw [halt]
    refine .parted refusal ?_ ?_ ?_ ?_
    · rw [hstrict]
    · rw [hstrict]
      rfl
    · have hevents : (takeOver env s path tolerant).yield.events =
          (asked env path).events ++ (tolerant.yield.imported s.depth).events := by
        unfold takeOver
        split <;> rfl
      rw [hstrict, hevents]
      exact (List.prefix_append_right_inj _).2 (events.map _)
    · unfold takeOver
      split <;>
        simp only [Yield.firstStop?_append, firstStop?_asked, firstStop?_withoutRows,
          firstStop?_imported, stop, Option.none_or]

theorem addImport_lockstep
    (hn : ∀ path source, Lockstep (nestedStrict path source) (nestedTolerant path source))
    (s : ReaderState) (directive : Text) :
    LockstepOutcome (addImport { env with strict := true } opened nestedStrict s directive)
      (addImport { env with strict := false } opened nestedTolerant s directive) := by
  cases target : Import.target env.root directive with
  | error h =>
    rw [addImport_of_error { env with strict := true } opened _ s target,
      addImport_of_error { env with strict := false } opened _ s target]
    exact .same rfl rfl
  | ok path =>
    by_cases isOpen : path ∈ opened
    · rw [addImport_of_mem { env with strict := true } opened _ s target isOpen,
        addImport_of_mem { env with strict := false } opened _ s target isOpen]
      exact .same rfl rfl
    · rw [addImport_of_notMem { env with strict := true } opened _ s target isOpen,
        addImport_of_notMem { env with strict := false } opened _ s target isOpen]
      cases env.library.fetch path with
      | error fault => exact .same rfl (firstStop?_asked env path)
      | ok source => exact takeOver_lockstep env (hn path source) s path

/-- Only an import remarks on an early stop. -/
theorem firstStop?_perform {nested : Text → Text → Reading} (titles : List Text) {st : Statement}
    (h : ∀ directive, st ≠ .inclusion directive) :
    (perform env opened nested titles st).yield.firstStop? = none := by
  cases st with
  | inclusion directive => exact absurd rfl (h directive)
  | label id content =>
    refine Yield.firstStop?_eq_none_iff.2 fun refusal h => ?_
    rw [perform, addLabel, Yield.remarks_append] at h
    rcases List.mem_append.1 h with h | h
    · rcases List.mem_append.1 h with h | h
      · exact stoppedEarly_notMem_literalRemarks env content refusal h
      · exact stoppedEarly_notMem_literalRemarks env id refusal h
    · cases h
  | block id body closed =>
    refine Yield.firstStop?_eq_none_iff.2 fun refusal h => ?_
    simp only [perform, Yield.remarks_append, List.mem_append] at h
    rcases h with (h | h) | h
    · rcases List.mem_append.1 h with h | h
      · split_ifs at h <;> simp at h
      · exact stoppedEarly_notMem_literalRemarks env id refusal h
    · cases h
    · cases h
  | heading | close | idle => rfl

theorem perform_lockstep
    (hn : ∀ path source, Lockstep (nestedStrict path source) (nestedTolerant path source))
    (titles : List Text) (st : Statement) :
    LockstepOutcome (perform { env with strict := true } opened nestedStrict titles st)
      (perform { env with strict := false } opened nestedTolerant titles st) := by
  cases st with
  | inclusion directive => exact addImport_lockstep env opened hn _ directive
  | heading | label | block | close | idle =>
    exact .same rfl (firstStop?_perform { env with strict := true } opened titles (by simp))

/-! ### Documents -/

/-- **The two readers are in lockstep along a document.** When they part, the strict one has
stopped, and what the tolerant one goes on to yield comes behind. -/
theorem course_lockstep
    (hn : ∀ path source, Lockstep (nestedStrict path source) (nestedTolerant path source))
    (t : Text) (titles : List Text) :
    Lockstep (course { env with strict := true } opened nestedStrict ⟨.seeking [], titles⟩ t)
      (course { env with strict := false } opened nestedTolerant ⟨.seeking [], titles⟩ t) := by
  induction t using statement_induction generalizing titles with
  | none t hst =>
    obtain ⟨word, hstrict⟩ :=
      course_of_no_statement { env with strict := true } opened nestedStrict titles hst
    obtain ⟨word', htolerant⟩ :=
      course_of_no_statement { env with strict := false } opened nestedTolerant titles hst
    rw [hstrict, htolerant]
    exact .same rfl rfl rfl
  | some t st rest hst ih =>
    rw [course_of_statement _ _ _ titles hst, course_of_statement _ _ _ titles hst]
    have hperform := perform_lockstep env opened hn titles st
    have hseeks := perform_seeks { env with strict := true } opened nestedStrict titles st
    generalize perform { env with strict := true } opened nestedStrict titles st = o
      at hperform hseeks
    generalize perform { env with strict := false } opened nestedTolerant titles st = o'
      at hperform
    cases hperform with
    | same eq calm =>
      subst eq
      cases halt : o'.halt with
      | some h =>
        simp only [resume, halt]
        exact .same rfl rfl calm
      | none =>
        simp only [resume, halt]
        rw [hseeks halt]
        exact (ih _).after calm
    | parted refusal halt rows events stop =>
      -- whatever the tolerant reader goes on to do, it comes behind what it has yielded:
      obtain ⟨z, hz⟩ : ∃ z, (resume { env with strict := false } opened nestedTolerant o'
          rest).yield = o'.yield ++ z := by
        cases halt' : o'.halt with
        | some h => exact ⟨.empty, by simp only [resume, halt', Yield.append_empty]⟩
        | none => exact ⟨_, by simp only [resume, halt']; rfl⟩
      refine .parted refusal ?_ ?_ ?_ ?_
      · simp only [resume, halt]
      · simp only [resume, halt, rows]
        exact List.nil_prefix
      · rw [hz]
        simp only [resume, halt]
        exact events.trans (List.prefix_append _ _)
      · rw [hz, Yield.firstStop?_append, stop]
        rfl

theorem Lockstep.of_unplaced (h : Lockstep strict.unplaced tolerant.unplaced) :
    Lockstep strict tolerant := by
  cases h with
  | same yield halt calm => exact .same yield halt calm
  | parted refusal halt rows events stop => exact .parted refusal halt rows events stop

/-- **The two readers are in lockstep through imports at every depth.** -/
theorem readWithin_lockstep (levels : Nat) : ∀ (opened : List Text) (source : Text),
    Lockstep (readWithin { env with strict := true } levels opened source)
      (readWithin { env with strict := false } levels opened source) := by
  induction levels with
  | zero => exact fun _ _ => .same rfl rfl rfl
  | succ levels ih =>
    intro opened source
    have hcourse := course_lockstep env opened (fun path source => ih (path :: opened) source)
      source []
    exact Lockstep.tolerate env hcourse.of_unplaced

theorem halt_ne_refused (levels : Nat) (opened : List Text) (source : Text) (refusal : Refusal) :
    (readWithin { env with strict := false } levels opened source).halt ≠
      some (.refused refusal) := by
  cases levels with
  | zero => rintro ⟨⟩
  | succ levels =>
    intro h
    rw [readWithin, Grammar.halt_tolerate] at h
    split at h
    · cases h
    · rename_i hne
      exact hne refusal h

theorem exists_import_of_halt {levels : Nat} {source : Text} {h : Halt}
    (halt : (readWithin env (levels + 1) opened source).halt = some h) :
    ∃ s directive, (addImport env opened
      (fun path source => readWithin env levels (path :: opened) source) s directive).halt =
        some h := by
  have hcourse : (course env opened (fun path source => readWithin env levels (path :: opened)
      source) .initial source).halt = some h := by
    rw [readWithin, Grammar.halt_tolerate] at halt
    split at halt
    · rename_i hrefused
      split_ifs at halt
      exact hrefused.trans halt
    · exact halt
  exact course_halt env opened _ hcourse

/-- Where the root folder is a path, nothing else than a refusal or too deep an import halts a
reading. -/
theorem halt_readWithin {root : Text} (hroot : env.root = .ok root) (levels : Nat) :
    ∀ (opened : List Text) (source : Text) (fault : RootFault),
      (readWithin env levels opened source).halt ≠ some (.badRoot fault) := by
  induction levels with
  | zero =>
    intro _ _ _ h
    cases h
  | succ levels ih =>
    intro opened source fault hhalt
    obtain ⟨s, directive, himport⟩ := exists_import_of_halt env opened hhalt
    obtain ⟨o, ho, hcase⟩ := addImport_cases env opened
      (fun path source => readWithin env levels (path :: opened) source) s directive
    rw [ho] at himport
    cases hcase with
    | noTarget h target =>
      cases himport
      simp only [Import.target, hroot] at target
      split_ifs at target
      cases target
    | halted path source h target notOpen fetch halt =>
      cases himport
      exact ih (path :: opened) source fault halt
    | cycle | unreadable | read => cases himport

end Reader

/-- **A strict reader raises the first refusal that a tolerant one notes**, and before it both do
the same. They are given the same document, the same collaborators and the same open documents.

1. The strict reader raises a refusal, whatever the depth of the import, exactly if the first early
   stop that the tolerant reader remarks on is about it; so it raises one exactly if there is such a
   remark.
2. If the strict reader does not halt, neither does the other, and both give the same tree after the
   same calls.
3. If it does halt, its calls are the first calls of the tolerant reader, and what it has of the
   tree is, in the order of the nodes and with their depths, a beginning of the other's.
4. Where the root folder is a path and imports are not nested beyond all bounds, the tolerant reader
   does not halt. -/
theorem strict_agrees_up_to_refusal (env : Settings) (opened : List Text) (source : Text) :
    let strict := { env with strict := true }.read opened source
    let tolerant := { env with strict := false }.read opened source
    (∀ refusal, strict.halt = some (.refused refusal) ↔
        tolerant.yield.firstStop? = some refusal) ∧
      ((∃ refusal, strict.halt = some (.refused refusal)) ↔
        ∃ refusal, .stoppedEarly refusal ∈ tolerant.yield.remarks) ∧
      (strict.halt = none → tolerant.halt = none ∧ strict.tree = tolerant.tree ∧
        strict.yield.events = tolerant.yield.events) ∧
      ((∃ halt, strict.halt = some halt) → strict.yield.events <+: tolerant.yield.events ∧
        Outline.rowsOfAll 0 strict.tree <+: Outline.rowsOfAll 0 tolerant.tree) ∧
      ((∃ root, env.root = .ok root) → tolerant.halt ≠ some .tooDeep → tolerant.halt = none) := by
  intro strict tolerant
  have hlock : Reader.Lockstep strict tolerant :=
    Reader.readWithin_lockstep env (env.library.nesting + 1) opened source
  have hsettled := Reader.halt_ne_refused env (env.library.nesting + 1) opened source
  have hfirst := hlock.refused_iff hsettled
  refine ⟨hfirst, ?_, ?_, ?_, ?_⟩
  · rw [exists_congr hfirst, ← Option.isSome_iff_exists, ← Option.ne_none_iff_isSome, ne_eq,
      Yield.firstStop?_eq_none_iff]
    simp only [not_forall, not_not]
  · intro hend
    obtain ⟨hhalt, hyield⟩ := hlock.eq_of_halt hend
    exact ⟨hhalt, by rw [Reading.tree, Reading.tree, hyield], by rw [hyield]⟩
  · intro _
    rw [← Grammar.rows_read, ← Grammar.rows_read]
    exact ⟨hlock.events_prefix, hlock.rows_prefix⟩
  · rintro ⟨root, hroot⟩ hdeep
    cases h : tolerant.halt with
    | none => rfl
    | some halt =>
      cases halt with
      | refused refusal => exact absurd h (hsettled refusal)
      | badRoot fault =>
        exact absurd h (Reader.halt_readWithin { env with strict := false } hroot _ _ _ fault)
      | tooDeep => exact absurd h hdeep

end Vitae
