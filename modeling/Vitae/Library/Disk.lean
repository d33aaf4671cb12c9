import Vitae.Library.Basic
import Vitae.Library.Utf8

/-!
# Disks

A disk holds files in folders. A path is followed step by step, from the top of the machine if it
starts with a slash and else from the working folder; `..` goes up, and at the top it stays there.
Files are texts in UTF-8 whose lines may end in any of the three usual ways.
-/

namespace Vitae

open Text

/-- The files and folders of a disk. Each is given by the names on the way to it from the top, and
every folder on such a way exists. -/
structure Disk where
  /-- The files with their bytes. -/
  files : List (List Text × List UInt8)
  /-- Folders that exist whether or not they hold files. -/
  folders : List (List Text)
  /-- The working folder. -/
  working : List Text

namespace Disk

/-- A place that a path has come to. -/
inductive Place
  /-- A folder, by the names on the way to it. -/
  | folder (way : List Text)
  /-- A file with its bytes. -/
  | file (bytes : List UInt8)

/-- The names of a path. Empty names and the name `.` go nowhere. -/
def names (path : Text) : List Text :=
  (pieces (· == '/') path).filter fun name => !name.isEmpty && name ≠ ['.']

/-- The slashes that a path starts with. Two of them stay two, and more are one. -/
def anchor : Text → Text
  | '/' :: '/' :: '/' :: _ => ['/']
  | '/' :: '/' :: _ => ['/', '/']
  | '/' :: _ => ['/']
  | _ => []

/-- The path of the folder that a path stands in. The working folder is `.`. -/
def folderOf (path : Text) : Text :=
  let folder := anchor path ++ joinWith ['/'] (names path).dropLast
  if folder.isEmpty then ['.'] else folder

/-- Whether a way leads to a folder. -/
def isFolder (d : Disk) (way : List Text) : Bool :=
  (d.working :: d.folders ++ d.files.map Prod.fst).any way.isPrefixOf

/-- One step from a place. -/
def step (d : Disk) (place : Place) (name : Text) : Except FetchFault Place :=
  match place with
  | .file _ => .error .belowFile
  | .folder way =>
    if name = ['.', '.'] then .ok (.folder way.dropLast)
    else
      let way := way ++ [name]
      match d.files.lookup way with
      | some bytes => .ok (.file bytes)
      | none => if d.isFolder way then .ok (.folder way) else .error .noFile

/-- The folder where a path starts. -/
def start (d : Disk) (path : Text) : List Text :=
  if path.head? = some '/' then [] else d.working

/-- The bytes of the file that a path names. -/
def bytes (d : Disk) (path : Text) : Except FetchFault (List UInt8) := do
  if path.contains '\x00' then throw .nullInPath
  match ← (names path).foldlM d.step (.folder (d.start path)) with
  | .file bytes => return bytes
  | .folder _ => throw .isFolder

/-- A text with every line end a single line feed. -/
def normalizeLineEnds : Text → Text
  | [] => []
  | '\r' :: '\n' :: t => '\n' :: normalizeLineEnds t
  | c :: t => (if c = '\r' then '\n' else c) :: normalizeLineEnds t

/-- The text of the file that a path names. -/
def read (d : Disk) (path : Text) : Except FetchFault Text := do
  match Utf8.decode? (← d.bytes path) with
  | some t => return normalizeLineEnds t
  | none => throw .notUtf8

/-- The disk as a library. The documents that are open within each other have different targets,
each target but the first is named in a file, and a file names less targets than it has bytes. -/
def toLibrary (d : Disk) : Library where
  fetch := d.read
  nesting := 1 + (d.files.flatMap fun (_, bytes) => bytes).length
  isStandIn := false

end Disk

end Vitae
