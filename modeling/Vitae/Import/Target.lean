import Vitae.Import.Path
import Vitae.Library.Basic
import Vitae.Literal.Quotes
import Vitae.Text.Quoted

/-!
# Targets of imports

An import names another document in double quotes. Its target is the path below the root folder.
Reading a document halts at an import that is refused; it also halts when the root is no path, which
only options that nobody checked can bring about.
-/

namespace Vitae

open Text

/-- Why an import is refused. -/
inductive Refusal
  /-- The directive is not in double quotes. -/
  | malformed (directive : Text)
  /-- The library cannot answer the path. -/
  | unreadable (path : Text) (fault : FetchFault)
  /-- The document of the path is being read already. -/
  | cycle (path : Text)
  deriving DecidableEq

namespace Refusal

/-- The wording of a refusal. -/
def message : Refusal → Text
  | .malformed directive =>
    "@import target must be wrapped in double quotes, got ".toList ++ quoted directive
  | .unreadable path _ => "could not read imported document ".toList ++ quoted path
  | .cycle path => "import cycle through ".toList ++ quoted path

end Refusal

/-- Why the root folder is no path. -/
inductive RootFault
  /-- It is missing. -/
  | absent
  /-- It is something else than a text. -/
  | notText
  deriving DecidableEq, Repr

/-- Why the reading of a document halts. -/
inductive Halt
  /-- An import is refused. -/
  | refused (r : Refusal)
  /-- The root folder is no path. -/
  | badRoot (f : RootFault)
  /-- Imports are nested deeper than the library said. -/
  | tooDeep
  deriving DecidableEq

/-- The root folder as it was given. -/
abbrev Root := Except RootFault Text

namespace Import

/-- The path that a directive names, or why there is none. -/
def target (root : Root) (directive : Text) : Except Halt Text :=
  let inner := trim directive
  if inner.head? = some '"' then
    match root with
    | .ok root => .ok (Path.join [root, Path.normalize (Literal.unwrap directive)])
    | .error fault => .error (.badRoot fault)
  else .error (.refused (.malformed inner))

/-- The path and the source of the document that a directive names. The documents `opened` are
being read already. -/
def resolve (root : Root) (library : Library) (opened : List Text) (directive : Text) :
    Except Halt (Text × Text) := do
  let path ← target root directive
  if path ∈ opened then throw (.refused (.cycle path))
  match library.fetch path with
  | .ok source => return (path, source)
  | .error fault => throw (.refused (.unreadable path fault))

end Import

end Vitae
