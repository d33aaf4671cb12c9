import Vitae.Text.Basic

/-!
# Libraries

A library answers paths with the sources of documents. The reader asks it for the target of each
document that another imports; what it cannot answer it refuses with a reason.
-/

namespace Vitae

/-- Why a library cannot answer a path. -/
inductive FetchFault
  /-- The collection has no entry of that path. -/
  | noEntry
  /-- The disk has no file of that path. -/
  | noFile
  /-- The path names a folder. -/
  | isFolder
  /-- The path goes on below a file. -/
  | belowFile
  /-- The bytes of the file are no UTF-8. -/
  | notUtf8
  /-- The path holds a null character. -/
  | nullInPath
  deriving DecidableEq, Repr

/-- A source of documents. -/
structure Library where
  /-- The document of a path. -/
  fetch : Text → Except FetchFault Text
  /-- How many of its documents can be open within each other. -/
  nesting : Nat
  /-- Whether the library only stands in for one that has not been given. -/
  isStandIn : Bool

namespace Library

/-- The library that stands in for a missing one: every document is empty. -/
def standIn : Library :=
  ⟨fun _ => .ok [], 1, true⟩

/-- The library of a collection of paths and their documents. -/
def ofList (documents : List (Text × Text)) : Library where
  fetch path :=
    match documents.lookup path with
    | some source => .ok source
    | none => .error .noEntry
  nesting := documents.length
  isStandIn := false

end Library

end Vitae
