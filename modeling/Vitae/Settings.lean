import Vitae.Import.Target
import Vitae.Literal.Stage

/-!
# Settings

What a reader of documents can be told: the root folder of imports, the library, how prose is
rendered, whether a refused import is an error, and the stages of literals. Settings are made from
fields that may hold anything. A first set of fields is checked; later ones replace fields unchecked.
-/

namespace Vitae

/-- What the reader of a document works with. -/
structure Settings where
  root : Root
  library : Library
  render : Text → Text
  strict : Bool
  stages : List Stage
  readInstant : Text → Option Instant

/-- A value that somebody gave for a field. -/
inductive FieldValue
  | null
  | flag (b : Bool)
  | number (n : Int)
  | text (t : Text)
  | collection (isEmpty : Bool)

namespace FieldValue

/-- The texts that mean yes. -/
def affirmations : List String := ["1", "t", "y", "on", "yes", "true"]

/-- The texts that mean no. -/
def negations : List String := ["0", "f", "n", "no", "off", "false"]

/-- The truth value that a value stands for, if it stands for one: itself, the numbers 0 and 1,
and the usual words for yes and no in any case. -/
def toFlag? : FieldValue → Option Bool
  | .flag b => some b
  | .number 0 => some false
  | .number 1 => some true
  | .text t =>
    let word := String.ofList (t.map Char.toLower)
    if affirmations.contains word then some true
    else if negations.contains word then some false
    else none
  | _ => none

/-- Whether a value counts as true where nobody checks it: all but null, zero and what is
empty. -/
def isTruthy : FieldValue → Bool
  | .null => false
  | .flag b => b
  | .number n => n ≠ 0
  | .text t => !t.isEmpty
  | .collection isEmpty => !isEmpty

/-- A value as a root folder, unchecked. -/
def toRoot : FieldValue → Root
  | .text t => .ok t
  | .null => .error .absent
  | _ => .error .notText

end FieldValue

/-- The fields that somebody gave. The collaborators are given as what they are, and only the root
and the strictness may be anything. -/
structure Fields where
  root : Option FieldValue
  strict : Option FieldValue
  library : Option Library
  render : Option (Text → Text)
  stages : Option (List Stage)

namespace Settings

/-- Settings with checked fields over the defaults, if the fields pass: the root must be a text,
and the strictness must stand for a truth value. -/
def ofFields? (defaults : Settings) (f : Fields) : Option Settings := do
  let root ←
    match f.root with
    | none => some defaults.root
    | some (.text t) => some (.ok t)
    | some _ => none
  let strict ←
    match f.strict with
    | none => some defaults.strict
    | some value => value.toFlag?
  return { defaults with
    root, strict
    library := f.library.getD defaults.library
    render := f.render.getD defaults.render
    stages := f.stages.getD defaults.stages }

/-- Settings with some fields replaced and nothing checked. -/
def replace (s : Settings) (f : Fields) : Settings :=
  { s with
    root := (f.root.map FieldValue.toRoot).getD s.root
    strict := (f.strict.map FieldValue.isTruthy).getD s.strict
    library := f.library.getD s.library
    render := f.render.getD s.render
    stages := f.stages.getD s.stages }

end Settings

end Vitae
