import Vitae.Library.Disk
import Vitae.Reader.Step

/-!
# Reading documents

A document is read from its first character to its last, or until something makes the reading halt.
A refused import is an error for a strict reader; others keep what has been read so far. Imported
documents are read the same way, each within the one that imports it.
-/

namespace Vitae

namespace Reader

variable (env : Settings)

/-- The characters of a document from a position on, read in a given state. -/
def run (opened : List Text) (nested : Text → Text → Reading) (position : Nat) (s : ReaderState) :
    Text → Reading
  | [] =>
    let o := (finish env opened nested s).andThen (finish env opened nested)
    ⟨o.yield, o.state, position, o.halt⟩
  | c :: rest =>
    let o := step env opened nested s c rest
    match o.halt with
    | some h => ⟨o.yield, o.state, position, some h⟩
    | none =>
      let r := run opened nested (position + 1 + o.used) o.state (rest.drop o.used)
      { r with yield := o.yield ++ r.yield }
termination_by t => t.length
decreasing_by simp only [List.length_drop, List.length_cons]; omega

/-- The reading of a document, where a refusal ends the document without being an error, unless
the reader is strict. -/
def tolerate (r : Reading) : Reading :=
  match r.halt with
  | some (.refused refusal) =>
    if env.strict then r
    else { r with yield := r.yield ++ .noted [.stoppedEarly refusal], halt := none }
  | _ => r

/-- The reading of a document while the documents `opened` are being read, with imports nested up
to a number of levels. -/
def readWithin : Nat → List Text → Text → Reading
  | 0, _, _ => ⟨.empty, .initial, 0, some .tooDeep⟩
  | levels + 1, opened, source =>
    tolerate env
      (run env opened (fun path source => readWithin levels (path :: opened) source) 0 .initial
        source)

end Reader

namespace Reading

/-- The forest of a document, as far as it has been read. -/
def tree (r : Reading) : List Node :=
  r.yield.rows.forest

end Reading

namespace Settings

/-- Settings for a reader of instants and a renderer: imports below the working folder from no
library, and tolerance. -/
def standard (readInstant : Text → Option Instant) (render : Text → Text) : Settings where
  root := .ok ['.']
  library := .standIn
  render
  strict := false
  stages := Stage.standard
  readInstant

/-- The reading of a document. The documents `opened` are being read already. -/
def read (env : Settings) (opened : List Text) (source : Text) : Reading :=
  Reader.readWithin env (env.library.nesting + 1) opened source

/-- The settings for a file of a disk, unless others are given: imports stand below the folder of
the file. -/
def ofFile (defaults : Settings) (disk : Disk) (path : Text) : Settings :=
  { defaults with root := .ok (Disk.folderOf path), library := disk.toLibrary }

/-- The reading of a file of a disk. The file itself counts as being read, under the path that it
has as the target of an import in its own folder. -/
def readFromDisk (defaults : Settings) (given : Option Settings) (disk : Disk) (path : Text) :
    Except FetchFault Reading := do
  let source ← disk.read path
  let env := given.getD (defaults.ofFile disk path)
  match env.root with
  | .error fault => return ⟨.empty, .initial, 0, some (.badRoot fault)⟩
  | .ok root =>
    let name := ((Disk.names path).getLast?).getD []
    return env.read [Path.join [root, Path.normalize name]] source

end Settings

end Vitae
