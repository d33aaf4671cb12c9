import Vitae.Proofs.Reader.Ending
import Vitae.Proofs.Reader.Inlining

/-!
# Attempts to import

`Settings.attempts` lists the imports that a reader comes to in a document and in the documents that
it imports, in their order and each with the documents that are open at it. What becomes of an
attempt is decided by these documents (`Attempt.result`).

The list accounts for all that the reader does with its imports (`Reader.recorded_readWithin`): the
calls of the library are those of the attempts, and so are the refusals that it raises or notes. The
documents that are open at an attempt are a chain of different ones
(`Reader.enclosing_of_mem_attempts`). Together this is `imports_guarded`.
-/

namespace Vitae

open Text Reader

/-- An import that a reader comes to: the documents that are open there, and the directive. -/
structure Attempt where
  opened : List Text
  directive : Text

namespace Attempt

variable (env : Settings) (a : Attempt)

/-- The path and the source that the attempt gets, or why it gets none. -/
def result : Except Halt (Text × Text) :=
  Import.resolve env.root env.library a.opened a.directive

/-- The path that the library is asked for, if it is asked. -/
def asked? : Option Text :=
  match a.result env with
  | .ok (path, _) => some path
  | .error (.refused (.unreadable path _)) => some path
  | .error _ => none

/-- Why the attempt is refused, if it is. -/
def refusal? : Option Refusal :=
  match a.result env with
  | .error (.refused refusal) => some refusal
  | _ => none

variable {env a} {path : Text}

theorem of_result_eq_ok {source : Text} (h : a.result env = .ok (path, source)) :
    path ∉ a.opened ∧ env.library.fetch path = .ok source := by
  unfold result at h
  cases target : Import.target env.root a.directive with
  | error halt => cases (Import.resolve_of_error target).symm.trans h
  | ok path' =>
    by_cases isOpen : path' ∈ a.opened
    · cases (Import.resolve_of_mem target isOpen).symm.trans h
    · rw [Import.resolve_of_notMem target isOpen] at h
      cases fetch : env.library.fetch path' with
      | error fault =>
        rw [fetch] at h
        cases h
      | ok source' =>
        rw [fetch] at h
        cases h
        exact ⟨isOpen, fetch⟩

/-- **No document is asked for while it is open.** -/
theorem notMem_of_asked? (h : a.asked? env = some path) : path ∉ a.opened := by
  unfold asked? result at h
  cases target : Import.target env.root a.directive with
  | error halt =>
    rw [Import.resolve_of_error target] at h
    rcases Import.error_of_target target with ⟨t, rfl⟩ | ⟨fault, rfl⟩ <;> cases h
  | ok path' =>
    by_cases isOpen : path' ∈ a.opened
    · rw [Import.resolve_of_mem target isOpen] at h
      cases h
    · rw [Import.resolve_of_notMem target isOpen] at h
      cases fetch : env.library.fetch path' <;> simp only [fetch] at h <;> cases h <;> exact isOpen

/-- **An attempt is refused as a cycle exactly if its target is open.** -/
theorem refusal?_cycle_iff (target : Import.target env.root a.directive = .ok path)
    (path' : Text) : a.refusal? env = some (.cycle path') ↔ path' = path ∧ path ∈ a.opened := by
  unfold refusal? result
  by_cases isOpen : path ∈ a.opened
  · rw [Import.resolve_of_mem target isOpen]
    simp [isOpen, eq_comm]
  · rw [Import.resolve_of_notMem target isOpen]
    cases env.library.fetch path <;> simp [isOpen]

theorem of_refusal?_eq_cycle (h : a.refusal? env = some (.cycle path)) :
    Import.target env.root a.directive = .ok path ∧ path ∈ a.opened := by
  cases target : Import.target env.root a.directive with
  | error halt =>
    have result : a.result env = .error halt := Import.resolve_of_error target
    rw [refusal?, result] at h
    rcases Import.error_of_target target with ⟨t, rfl⟩ | ⟨fault, rfl⟩ <;> cases h
  | ok path' =>
    obtain ⟨rfl, isOpen⟩ := (refusal?_cycle_iff target path).1 h
    exact ⟨rfl, isOpen⟩

end Attempt

/-! ### The list of attempts -/

namespace Reader

variable (env : Settings) (opened : List Text)

/-- The attempts in the document that an attempt gets, if it gets one. In every document `inner`
lists the attempts. -/
def attemptsInside (inner : Text → Text → List Attempt) (attempt : Attempt) : List Attempt :=
  match attempt.result env with
  | .ok (path, source) => inner path source
  | .error _ => []

/-- The attempts of a document, as far as it is read. The other documents are read by `nested`, and
`inner` lists the attempts in them. -/
def attemptsAlong (nested : Text → Text → Reading) (inner : Text → Text → List Attempt)
    (t : Text) : List Attempt :=
  match hst : statement? t with
  | none => []
  | some (st, rest) =>
    have := length_of_statement? hst
    match st with
    | .inclusion directive =>
      let further :=
        match (addImport env opened nested .initial directive).halt with
        | none => attemptsAlong nested inner rest
        | some _ => []
      ⟨opened, directive⟩ :: (attemptsInside env inner ⟨opened, directive⟩ ++ further)
    | _ => attemptsAlong nested inner rest
termination_by t.length

section

variable {env opened} {nested : Text → Text → Reading} {inner : Text → Text → List Attempt}
  {t rest : Text}

theorem attemptsAlong_of_none (hst : statement? t = none) :
    attemptsAlong env opened nested inner t = [] := by
  rw [attemptsAlong]
  split
  · rfl
  · rename_i h
    cases hst.symm.trans h

theorem attemptsAlong_of_inclusion {directive : Text}
    (hst : statement? t = some (.inclusion directive, rest)) :
    attemptsAlong env opened nested inner t =
      ⟨opened, directive⟩ :: (attemptsInside env inner ⟨opened, directive⟩ ++
        match (addImport env opened nested .initial directive).halt with
        | none => attemptsAlong env opened nested inner rest
        | some _ => []) := by
  rw [attemptsAlong]
  split
  · rename_i h
    cases hst.symm.trans h
  · rename_i h
    cases hst.symm.trans h
    rfl

theorem attemptsAlong_of_other {st : Statement} (hst : statement? t = some (st, rest))
    (hother : ∀ directive, st ≠ .inclusion directive) :
    attemptsAlong env opened nested inner t = attemptsAlong env opened nested inner rest := by
  rw [attemptsAlong]
  split
  · rename_i h
    cases hst.symm.trans h
  · rename_i h
    cases hst.symm.trans h
    cases st with
    | inclusion directive => exact absurd rfl (hother directive)
    | heading | label | block | close | idle => rfl

end

/-- The attempts of a document and of the documents that it imports, with imports nested up to a
number of levels. -/
def attemptsWithin : Nat → List Text → Text → List Attempt
  | 0, _, _ => []
  | levels + 1, opened, source =>
    attemptsAlong env opened (fun path source => readWithin env levels (path :: opened) source)
      (fun path source => attemptsWithin levels (path :: opened) source) source

end Reader

/-- The attempts to import that are made when a document is read. -/
def Settings.attempts (env : Settings) (opened : List Text) (source : Text) : List Attempt :=
  attemptsWithin env (env.library.nesting + 1) opened source

/-! ### What a reading shows of its attempts -/

/-- The path of a call of the library. -/
def Call.path? : Call → Option Text
  | .fetch path => some path
  | .render _ => none

/-- The paths that the library is asked for, in their order. -/
def Yield.fetches (y : Yield) : List Text :=
  y.events.filterMap fun e => e.call.path?

/-- The refusal that halts a reading, if it is one. -/
def Halt.refusal? : Halt → Option Refusal
  | .refused refusal => some refusal
  | _ => none

/-- The refusals of a stretch in their order: those that have ended a document are remarked on, and
one may be raised at the end. -/
def Yield.refusals (y : Yield) (halt : Option Halt) : List Refusal :=
  y.remarks.filterMap Remark.stop? ++ (halt.bind Halt.refusal?).toList

namespace Yield

variable (y z : Yield)

@[simp] theorem fetches_append : (y ++ z).fetches = y.fetches ++ z.fetches :=
  List.filterMap_append

@[simp] theorem fetches_imported (d : Nat) : (y.imported d).fetches = y.fetches := by
  simp only [fetches, imported, List.filterMap_map, Function.comp_def]

@[simp] theorem refusals_append (halt : Option Halt) :
    (y ++ z).refusals halt = y.refusals none ++ z.refusals halt := by
  simp [refusals, List.append_assoc]

/-- Where no early stop is remarked on, there is no refusal but the last. -/
theorem refusals_of_calm {y : Yield} (h : y.firstStop? = none) (halt : Option Halt) :
    y.refusals halt = (halt.bind Halt.refusal?).toList := by
  have hnone : y.remarks.filterMap Remark.stop? = [] :=
    List.filterMap_eq_nil_iff.2 (List.findSome?_eq_none_iff.1 h)
  rw [refusals, hnone, List.nil_append]

end Yield

namespace Reader

variable {env : Settings} {opened : List Text} {attempts attempts' : List Attempt} {y z : Yield}
  {halt : Option Halt}

variable (env) in
/-- The attempts account for the calls of the library and the refusals of a stretch. -/
structure Recorded (attempts : List Attempt) (y : Yield) (halt : Option Halt) : Prop where
  fetches : y.fetches = attempts.filterMap (Attempt.asked? env)
  refusals : y.refusals halt = attempts.filterMap (Attempt.refusal? env)

theorem Recorded.append (h : Recorded env attempts y none) (h' : Recorded env attempts' z halt) :
    Recorded env (attempts ++ attempts') (y ++ z) halt where
  fetches := by rw [Yield.fetches_append, h.fetches, h'.fetches, List.filterMap_append]
  refusals := by rw [Yield.refusals_append, h.refusals, h'.refusals, List.filterMap_append]

theorem fetches_asked (path : Text) : (asked env path).fetches = [path] := by
  unfold asked
  rfl

/-- A statement that is no import calls for no document and refuses none. -/
theorem recorded_perform {nested : Text → Text → Reading} (titles : List Text) {st : Statement}
    (h : ∀ directive, st ≠ .inclusion directive) :
    Recorded env [] (perform env opened nested titles st).yield none := by
  refine ⟨?_, Yield.refusals_of_calm (firstStop?_perform env opened titles h) none⟩
  cases st with
  | inclusion directive => exact absurd rfl (h directive)
  | heading | label | block | close | idle => rfl

theorem recorded_of_error {attempt : Attempt} {h : Halt} (result : attempt.result env = .error h)
    (hfetches : y.fetches = (attempt.asked? env).toList) (hcalm : y.firstStop? = none) :
    Recorded env [attempt] y (some h) where
  fetches := by
    rw [hfetches, List.filterMap_cons, List.filterMap_nil]
    cases attempt.asked? env <;> rfl
  refusals := by
    have hrefusal : attempt.refusal? env = h.refusal? := by
      rw [Attempt.refusal?, result]
      cases h <;> rfl
    rw [Yield.refusals_of_calm hcalm, List.filterMap_cons, List.filterMap_nil, hrefusal,
      Option.bind_some]
    cases h.refusal? <;> rfl

theorem recorded_of_ok {attempt : Attempt} {path source : Text}
    (result : attempt.result env = .ok (path, source)) :
    Recorded env [attempt] (asked env path) none where
  fetches := by
    have hasked : attempt.asked? env = some path := by rw [Attempt.asked?, result]
    rw [fetches_asked, List.filterMap_cons_some hasked, List.filterMap_nil]
  refusals := by
    have hrefusal : attempt.refusal? env = none := by rw [Attempt.refusal?, result]
    rw [Yield.refusals_of_calm (firstStop?_asked env path), List.filterMap_cons_none hrefusal]
    rfl

theorem Recorded.imported (h : Recorded env attempts y halt) (d : Nat) :
    Recorded env attempts (y.imported d) halt where
  fetches := by rw [Yield.fetches_imported, h.fetches]
  refusals := h.refusals

theorem Recorded.withoutRows (h : Recorded env attempts y halt) :
    Recorded env attempts y.withoutRows halt where
  fetches := h.fetches
  refusals := h.refusals

/-- **An import is accounted for by its attempt and those in the other document.** -/
theorem recorded_addImport {nested : Text → Text → Reading}
    {inner : Text → Text → List Attempt}
    (hn : ∀ path source, Recorded env (inner path source) (nested path source).yield
      (nested path source).halt) (s : ReaderState) (directive : Text) :
    let attempt : Attempt := ⟨opened, directive⟩
    Recorded env (attempt :: attemptsInside env inner attempt)
      (addImport env opened nested s directive).yield
      (addImport env opened nested s directive).halt := by
  intro attempt
  obtain ⟨o, ho, hcase⟩ := addImport_cases env opened nested s directive
  rw [ho, attemptsInside]
  cases hcase with
  | noTarget h target =>
    have result : attempt.result env = .error h := Import.resolve_of_error target
    simp only [result]
    refine recorded_of_error result ?_ rfl
    rw [Attempt.asked?, result]
    rcases Import.error_of_target target with ⟨t, rfl⟩ | ⟨fault, rfl⟩ <;> rfl
  | cycle path target isOpen =>
    have result : attempt.result env = _ := Import.resolve_of_mem target isOpen
    simp only [result]
    refine recorded_of_error result ?_ rfl
    rw [Attempt.asked?, result]
    rfl
  | unreadable path fault target notOpen fetch =>
    have result : attempt.result env = _ := Import.resolve_of_notMem target notOpen
    rw [fetch] at result
    simp only [result]
    refine recorded_of_error result ?_ (firstStop?_asked env path)
    rw [Attempt.asked?, result, fetches_asked]
    rfl
  | halted path source h target notOpen fetch halt =>
    have result : attempt.result env = _ := Import.resolve_of_notMem target notOpen
    rw [fetch] at result
    simp only [result]
    have hinner := ((hn path source).imported s.depth).withoutRows
    rw [halt] at hinner
    exact (recorded_of_ok result).append hinner
  | read path source target notOpen fetch halt =>
    have result : attempt.result env = _ := Import.resolve_of_notMem target notOpen
    rw [fetch] at result
    simp only [result]
    have hinner := (hn path source).imported s.depth
    rw [halt] at hinner
    exact (recorded_of_ok result).append hinner

/-- **The attempts along a document account for its course.** -/
theorem recorded_course {nested : Text → Text → Reading} {inner : Text → Text → List Attempt}
    (hn : ∀ path source, Recorded env (inner path source) (nested path source).yield
      (nested path source).halt) (t : Text) (titles : List Text) :
    Recorded env (attemptsAlong env opened nested inner t)
      (course env opened nested ⟨.seeking [], titles⟩ t).yield
      (course env opened nested ⟨.seeking [], titles⟩ t).halt := by
  induction t using statement_induction generalizing titles with
  | none t hst =>
    obtain ⟨word, hcourse⟩ := course_of_no_statement env opened nested titles hst
    rw [hcourse, attemptsAlong_of_none hst]
    exact ⟨rfl, rfl⟩
  | some t st rest hst ih =>
    rw [course_of_statement env opened nested titles hst]
    have hseeks := perform_seeks env opened nested titles st
    have hfirst := @recorded_perform env opened nested titles st
    cases st with
    | inclusion directive =>
      have himport := @recorded_addImport env opened nested inner hn ⟨.seeking [], titles⟩ directive
      rw [attemptsAlong_of_inclusion hst,
        halt_addImport env opened nested .initial ⟨.seeking [], titles⟩]
      rw [perform] at hseeks ⊢
      cases halt : (addImport env opened nested ⟨.seeking [], titles⟩ directive).halt with
      | some h =>
        -- nothing is attempted once the reading has halted:
        rw [halt] at himport
        simp only [resume, halt, List.append_nil]
        exact himport
      | none =>
        rw [halt] at himport
        simp only [resume, halt]
        rw [hseeks halt]
        exact himport.append (ih _)
    | heading | label | block | close | idle =>
      rw [attemptsAlong_of_other hst (by simp)]
      exact (hfirst (by simp)).append (ih _)

theorem Recorded.tolerate {r : Reading} (h : Recorded env attempts r.yield r.halt) :
    Recorded env attempts (tolerate env r).yield (tolerate env r).halt := by
  unfold Reader.tolerate
  split
  · rename_i refusal hrefused
    split_ifs
    · exact h
    · rw [hrefused] at h
      refine ⟨?_, ?_⟩
      · rw [Yield.fetches_append, h.fetches]
        exact List.append_nil _
      · rw [Yield.refusals_append, ← h.refusals]
        exact congrArg (· ++ _) (List.append_nil _)
  · exact h

/-- **The attempts account for the calls of the library and the refusals of a reading.** -/
theorem recorded_readWithin (levels : Nat) : ∀ (opened : List Text) (source : Text),
    Recorded env (attemptsWithin env levels opened source)
      (readWithin env levels opened source).yield (readWithin env levels opened source).halt := by
  induction levels with
  | zero => exact fun _ _ => ⟨rfl, rfl⟩
  | succ levels ih =>
    intro opened source
    let nested (path source : Text) := readWithin env levels (path :: opened) source
    have hrun : Recorded env (attemptsWithin env (levels + 1) opened source)
        (run env opened nested 0 .initial source).yield
        (run env opened nested 0 .initial source).halt :=
      recorded_course (fun path source => ih (path :: opened) source) source []
    exact hrun.tolerate

/-! ### The documents that are open at an attempt -/

theorem mem_attemptsAlong {nested : Text → Text → Reading} {inner : Text → Text → List Attempt}
    {a : Attempt} (t : Text) (h : a ∈ attemptsAlong env opened nested inner t) :
    (a.opened = opened ∧ '\n' ∉ a.directive ∧ ∀ c ∈ a.directive, c ∈ t) ∨
      ∃ path source, path ∉ opened ∧ env.library.fetch path = .ok source ∧
        a ∈ inner path source := by
  induction t using statement_induction with
  | none t hst =>
    rw [attemptsAlong_of_none hst] at h
    cases h
  | some t st rest hst ih =>
    have hrest (h : a ∈ attemptsAlong env opened nested inner rest) :
        (a.opened = opened ∧ '\n' ∉ a.directive ∧ ∀ c ∈ a.directive, c ∈ t) ∨
          ∃ path source, path ∉ opened ∧ env.library.fetch path = .ok source ∧
            a ∈ inner path source := by
      refine (ih h).imp_left ?_
      rintro ⟨hopened, hline, hmem⟩
      exact ⟨hopened, hline, fun c hc => (statement?_suffix hst).subset (hmem c hc)⟩
    cases st with
    | inclusion directive =>
      rw [attemptsAlong_of_inclusion hst, List.mem_cons, List.mem_append] at h
      rcases h with rfl | h | h
      · exact .inl ⟨rfl, statement?_directive hst⟩
      · unfold attemptsInside at h
        split at h
        · rename_i path source hresult
          obtain ⟨notOpen, fetch⟩ := Attempt.of_result_eq_ok hresult
          exact .inr ⟨path, source, notOpen, fetch, h⟩
        · cases h
      · split at h
        · exact hrest h
        · cases h
    | heading | label | block | close | idle =>
      rw [attemptsAlong_of_other hst (by simp)] at h
      exact hrest h

/-- **The documents that are open at an attempt are a chain of different ones**: those that were
open from the start, and those of the imports that the attempt is nested in, which the library has
answered. -/
theorem fetched_of_mem_attempts (levels : Nat) : ∀ (opened : List Text) (source : Text),
    ∀ a ∈ attemptsWithin env levels opened source, ∃ enclosing, a.opened = enclosing ++ opened ∧
      enclosing.Nodup ∧
        ∀ path ∈ enclosing, path ∉ opened ∧ ∃ source, env.library.fetch path = .ok source := by
  induction levels with
  | zero =>
    rintro opened source a ⟨⟩
  | succ levels ih =>
    intro opened source a ha
    rcases mem_attemptsAlong source ha with ⟨hown, -⟩ | ⟨path, inner, notOpen, fetch, hinner⟩
    · exact ⟨[], hown, List.nodup_nil, List.forall_mem_nil _⟩
    · obtain ⟨enclosing, hopened, hnodup, hmem⟩ := ih (path :: opened) inner a hinner
      have hpath : path ∉ enclosing := fun h => (hmem path h).1 List.mem_cons_self
      have hchain : ([path] ++ enclosing).Nodup := List.nodup_cons.2 ⟨hpath, hnodup⟩
      refine ⟨enclosing ++ [path], ?_, ?_, ?_⟩
      · rw [hopened, List.append_assoc]
        rfl
      · exact List.nodup_append_comm.1 hchain
      · intro path' h
        rcases List.mem_append.1 h with h | h
        · obtain ⟨hnot, hfetched⟩ := hmem path' h
          exact ⟨fun hopen => hnot (List.mem_cons_of_mem _ hopen), hfetched⟩
        · rw [List.mem_singleton.1 h]
          exact ⟨notOpen, inner, fetch⟩

/-- In a finite library the chain is one of its documents. -/
theorem enclosing_of_mem_attempts {paths : Finset Text} (hpaths : env.library.Within paths)
    (levels : Nat) (opened : List Text) (source : Text) :
    ∀ a ∈ attemptsWithin env levels opened source, ∃ enclosing, a.opened = enclosing ++ opened ∧
      enclosing.Nodup ∧ ∀ path ∈ enclosing, path ∉ opened ∧ path ∈ paths := by
  intro a ha
  obtain ⟨enclosing, hopened, hnodup, hmem⟩ := fetched_of_mem_attempts levels opened source a ha
  refine ⟨enclosing, hopened, hnodup, fun path h => ?_⟩
  obtain ⟨notOpen, inner, fetch⟩ := hmem path h
  exact ⟨notOpen, hpaths path inner fetch⟩

/-- The directive of an attempt is made of characters that the documents have, in a single line. -/
theorem directive_of_mem_attempts {S : Char → Prop}
    (hfetch : ∀ path source, env.library.fetch path = .ok source → ∀ c ∈ source, S c)
    (levels : Nat) : ∀ (opened : List Text) (source : Text), (∀ c ∈ source, S c) →
      ∀ a ∈ attemptsWithin env levels opened source, '\n' ∉ a.directive ∧ ∀ c ∈ a.directive, S c := by
  induction levels with
  | zero =>
    rintro opened source - a ⟨⟩
  | succ levels ih =>
    intro opened source hsource a ha
    rcases mem_attemptsAlong source ha with ⟨-, hline, hmem⟩ | ⟨path, inner, -, fetch, hinner⟩
    · exact ⟨hline, fun c hc => hsource c (hmem c hc)⟩
    · exact ih (path :: opened) inner (hfetch path inner fetch) a hinner

/-! ### Repeated imports -/

theorem leads_replicate {nested : Text → Text → Reading} {titles : List Text} {t : Text}
    (h : Leads env opened nested titles t titles y) (n : Nat) :
    ∃ z, Leads env opened nested titles (List.replicate n t).flatten titles z := by
  induction n with
  | zero => exact ⟨.empty, leads_nil⟩
  | succ n ih =>
    obtain ⟨z, hz⟩ := ih
    exact ⟨y ++ z, h.append hz⟩

/-- **A document can be imported over and over**: if the import of a document does not halt the
reading, it does not do so when it is repeated. -/
theorem stop?_replicate_importLine {name : Text} (hname : '\n' ∉ name)
    (h : env.stop? opened (importLine name) = none) (n : Nat) :
    env.stop? opened (List.replicate n (importLine name)).flatten = none := by
  have hline := statement?_importLine hname []
  rw [List.append_nil] at hline
  rw [stop?_eq_course, ReaderState.initial, course_of_statement _ _ _ [] hline, perform] at h
  cases halt : (addImport env opened (importing env opened) ⟨.seeking [], []⟩
      (quotedName name)).halt with
  | some h' =>
    rw [resume, halt] at h
    cases h
  | none =>
    have hleads := leads_of_statement (statement?_importLine hname) halt
    rw [perform, opened_addImport] at hleads
    obtain ⟨z, hz⟩ := leads_replicate hleads n
    rw [stop?_eq_course, ReaderState.initial, hz.course_eq]

end Reader

/-- **Imports are guarded by the documents that are open.** The library holds finitely many
documents, and the attempts are listed in the order in which they are made.

1. The library is asked for the paths that the attempts ask for, and the refusals that the reader
   notes or raises are those of the attempts, both in their order.
2. Open at an attempt are the documents that were open from the start and those of the imports that
   it is nested in. These are different documents of the library, so imports are nested no deeper
   than the library has documents.
3. No attempt asks for a document that is open.
4. An attempt whose directive starts with a quote has a target, and it is refused as a cycle exactly
   if the target is open; so a document can be imported over and over, if it can be once.
5. A tolerant reader gets to the end, and a strict one does so or raises a refusal. That imports are
   followed to a limited depth does not show: with any greater depth the reading is the same. -/
theorem imports_guarded (settings : Settings) (root : Text) (documents : List (Text × Text))
    (opened : List Text) (source : Text) :
    let env := { settings with root := .ok root, library := .ofList documents }
    let paths := Library.pathsOf documents
    let attempts := env.attempts opened source
    let reading := env.read opened source
    (reading.yield.fetches = attempts.filterMap (Attempt.asked? env) ∧
        reading.yield.refusals reading.halt = attempts.filterMap (Attempt.refusal? env)) ∧
      (∀ a ∈ attempts, ∃ enclosing, a.opened = enclosing ++ opened ∧ enclosing.Nodup ∧
        (∀ path ∈ enclosing, path ∉ opened ∧ path ∈ paths) ∧ enclosing.length ≤ paths.card) ∧
      (∀ a ∈ attempts, ∀ path, a.asked? env = some path → path ∉ a.opened) ∧
      (∀ a ∈ attempts, (trim a.directive).head? = some '"' →
        ∃ path, Import.target env.root a.directive = .ok path ∧
          ∀ path', a.refusal? env = some (.cycle path') ↔ path' = path ∧ path ∈ a.opened) ∧
      (∀ name n, '\n' ∉ name → env.stop? opened (importLine name) = none →
        env.stop? opened (List.replicate n (importLine name)).flatten = none) ∧
      (env.strict = false → reading.halt = none) ∧
      (reading.halt = none ∨ ∃ refusal, reading.halt = some (.refused refusal)) ∧
      ∀ levels, documents.length < levels → readWithin env levels opened source = reading := by
  intro env paths attempts reading
  have hpaths : env.library.Within paths := Library.within_ofList documents
  have hrecorded : Recorded env attempts reading.yield reading.halt :=
    recorded_readWithin (env.library.nesting + 1) opened source
  -- there are more levels than documents that can be opened, so the levels do not run out:
  have hcard : (paths \ opened.toFinset).card ≤ documents.length :=
    (Finset.card_le_card Finset.sdiff_subset).trans (Library.card_pathsOf_le documents)
  have hdeep (levels : Nat) (h : documents.length < levels) :
      (readWithin env levels opened source).halt ≠ some .tooDeep :=
    halt_ne_tooDeep hpaths levels opened source (hcard.trans_lt h)
  have hreading : reading.halt ≠ some .tooDeep := hdeep _ (Nat.lt_succ_self _)
  refine ⟨⟨hrecorded.fetches, hrecorded.refusals⟩, ?_, fun a _ path => Attempt.notMem_of_asked?,
    ?_, fun name n hname h => stop?_replicate_importLine hname h n,
    fun h => halt_readWithin_tolerant h rfl hreading, ?_, ?_⟩
  · intro a ha
    obtain ⟨enclosing, hopened, hnodup, hmem⟩ :=
      enclosing_of_mem_attempts hpaths _ opened source a ha
    have hsub : enclosing.toFinset ⊆ paths := fun path h => (hmem path (List.mem_toFinset.1 h)).2
    refine ⟨enclosing, hopened, hnodup, hmem, ?_⟩
    rw [← List.toFinset_card_of_nodup hnodup]
    exact Finset.card_le_card hsub
  · intro a _ hquote
    obtain ⟨path, target⟩ := Import.target_of_quoted root hquote
    exact ⟨path, target, Attempt.refusal?_cycle_iff target⟩
  · cases halt : reading.halt with
    | none => exact .inl rfl
    | some h =>
      cases h with
      | refused refusal => exact .inr ⟨refusal, rfl⟩
      | badRoot fault => exact absurd halt (halt_readWithin env rfl _ opened source fault)
      | tooDeep => exact absurd halt hreading
  · intro levels h
    exact readWithin_stable h (hdeep _ (Nat.lt_succ_self _))

end Vitae
