import Mathlib.Tactic.SplitIfs
import Vitae.Reader.Step

/-!
# What an import can do

`Import.resolve` finds the document of a directive or says why there is none
(`Import.resolve_of_error`, `resolve_of_mem`, `resolve_of_notMem`).

`Reader.addImport` refuses a directive for its target, for a document that is being read already or
for the library's answer, passes on what makes the nested reading halt, or takes the nested reading
over. `Reader.ImportCase` lists these five ways with everything that is known in each, and
`Reader.addImport_cases` says that there is no other.
-/

namespace Vitae

namespace Import

variable {root : Root} {library : Library} {opened : List Text} {directive path : Text} {h : Halt}

/-- A directive has no target if it is malformed, or if the root folder is no path. -/
theorem error_of_target (target : Import.target root directive = .error h) :
    (∃ t, h = .refused (.malformed t)) ∨ ∃ fault, h = .badRoot fault := by
  unfold Import.target at target
  dsimp only at target
  split_ifs at target
  · cases root with
    | ok folder => cases target
    | error fault =>
      cases target
      exact .inr ⟨fault, rfl⟩
  · cases target
    exact .inl ⟨_, rfl⟩

theorem root_of_target (target : Import.target root directive = .ok path) :
    ∃ folder, root = .ok folder := by
  unfold Import.target at target
  dsimp only at target
  split_ifs at target
  cases root with
  | ok folder => exact ⟨folder, rfl⟩
  | error fault => cases target

theorem target_of_quoted (folder : Text) (h : (Text.trim directive).head? = some '"') :
    ∃ path, Import.target (.ok folder) directive = .ok path :=
  ⟨_, if_pos h⟩

theorem resolve_of_error (target : Import.target root directive = .error h) :
    resolve root library opened directive = .error h := by
  simp only [resolve, target, bind, Except.bind]

theorem resolve_of_mem (target : Import.target root directive = .ok path)
    (isOpen : path ∈ opened) :
    resolve root library opened directive = .error (.refused (.cycle path)) := by
  simp only [resolve, target, bind, Except.bind, isOpen, ↓reduceIte, throw, throwThe,
    MonadExceptOf.throw]

theorem resolve_of_notMem (target : Import.target root directive = .ok path)
    (notOpen : path ∉ opened) :
    resolve root library opened directive = match library.fetch path with
      | .ok source => .ok (path, source)
      | .error fault => .error (.refused (.unreadable path fault)) := by
  cases fetch : library.fetch path <;>
    simp only [resolve, target, bind, Except.bind, notOpen, ↓reduceIte, fetch, pure, Except.pure,
      throw, throwThe, MonadExceptOf.throw]

end Import

namespace Reader

variable (env : Settings) (opened : List Text) (nested : Text → Text → Reading)

/-- What is yielded when a document is asked for. -/
def asked (path : Text) : Yield :=
  .noted (fetchRemarks env path) ++ .called (.fetch path) .directive

/-- The ways in which an import can come out. -/
inductive ImportCase (s : ReaderState) (directive : Text) : Outcome → Prop
  | noTarget (h : Halt) (target : Import.target env.root directive = .error h) :
    ImportCase s directive ⟨s.fill .directive, 0, .empty, some h⟩
  | cycle (path : Text) (target : Import.target env.root directive = .ok path)
    (isOpen : path ∈ opened) :
    ImportCase s directive ⟨s.fill .directive, 0, .empty, some (.refused (.cycle path))⟩
  | unreadable (path : Text) (fault : FetchFault)
    (target : Import.target env.root directive = .ok path) (notOpen : path ∉ opened)
    (fetch : env.library.fetch path = .error fault) :
    ImportCase s directive
      ⟨s.fill .directive, 0, asked env path, some (.refused (.unreadable path fault))⟩
  | halted (path source : Text) (h : Halt)
    (target : Import.target env.root directive = .ok path) (notOpen : path ∉ opened)
    (fetch : env.library.fetch path = .ok source) (halt : (nested path source).halt = some h) :
    ImportCase s directive ⟨s.fill .directive, 0,
      asked env path ++ ((nested path source).yield.imported s.depth).withoutRows, some h⟩
  | read (path source : Text) (target : Import.target env.root directive = .ok path)
    (notOpen : path ∉ opened) (fetch : env.library.fetch path = .ok source)
    (halt : (nested path source).halt = none) :
    ImportCase s directive
      ⟨s.seek, 0, asked env path ++ (nested path source).yield.imported s.depth, none⟩

/-- **An import comes out in one of the five ways.** -/
theorem addImport_cases (s : ReaderState) (directive : Text) :
    ∃ o, addImport env opened nested s directive = o ∧
      ImportCase env opened nested s directive o := by
  refine ⟨_, rfl, ?_⟩
  unfold addImport
  cases target : Import.target env.root directive with
  | error h => exact .noTarget h target
  | ok path =>
    simp only
    split_ifs with isOpen
    · exact .cycle path target isOpen
    · cases fetch : env.library.fetch path with
      | error fault => exact .unreadable path fault target isOpen fetch
      | ok source =>
        simp only
        cases halt : (nested path source).halt with
        | some h => exact .halted path source h target isOpen fetch halt
        | none => exact .read path source target isOpen fetch halt

/-- What an import makes of the reading of the other document. -/
def takeOver (s : ReaderState) (path : Text) (inner : Reading) : Outcome :=
  match inner.halt with
  | some h => ⟨s.fill .directive, 0, asked env path ++ (inner.yield.imported s.depth).withoutRows,
      some h⟩
  | none => ⟨s.seek, 0, asked env path ++ inner.yield.imported s.depth, none⟩

variable (s : ReaderState) {directive path : Text} {h : Halt}

theorem addImport_of_error (target : Import.target env.root directive = .error h) :
    addImport env opened nested s directive = ⟨s.fill .directive, 0, .empty, some h⟩ := by
  simp only [addImport, target]

theorem addImport_of_mem (target : Import.target env.root directive = .ok path)
    (isOpen : path ∈ opened) :
    addImport env opened nested s directive =
      ⟨s.fill .directive, 0, .empty, some (.refused (.cycle path))⟩ := by
  simp only [addImport, target, if_pos isOpen]

theorem addImport_of_notMem (target : Import.target env.root directive = .ok path)
    (notOpen : path ∉ opened) :
    addImport env opened nested s directive =
      match env.library.fetch path with
      | .error fault =>
        ⟨s.fill .directive, 0, asked env path, some (.refused (.unreadable path fault))⟩
      | .ok source => takeOver env s path (nested path source) := by
  simp only [addImport, target, if_neg notOpen]
  rfl

theorem opened_addImport (s : ReaderState) (directive : Text) :
    (addImport env opened nested s directive).state.opened = s.opened := by
  obtain ⟨o, ho, hcase⟩ := addImport_cases env opened nested s directive
  rw [ho]
  cases hcase <;> rfl

/-- What makes an import halt does not depend on where the reader stands. -/
theorem halt_addImport (s s' : ReaderState) (directive : Text) :
    (addImport env opened nested s directive).halt =
      (addImport env opened nested s' directive).halt := by
  unfold addImport
  cases Import.target env.root directive with
  | error h => rfl
  | ok path =>
    simp only
    split_ifs
    · rfl
    · cases env.library.fetch path with
      | error fault => rfl
      | ok source =>
        simp only
        cases (nested path source).halt <;> rfl

theorem used_addImport (s : ReaderState) (directive : Text) :
    (addImport env opened nested s directive).used = 0 := by
  obtain ⟨o, ho, hcase⟩ := addImport_cases env opened nested s directive
  rw [ho]
  cases hcase <;> rfl

end Reader

end Vitae
