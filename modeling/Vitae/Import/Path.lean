import Vitae.Text.Basic

/-!
# Paths of documents

A document is named by a path with the suffix `.resume`. Paths are compared as texts, so the same
document should get the same path whichever way it is spelled: joining removes the dot segments
that change nothing.
-/

namespace Vitae.Path

open Text

/-- The suffix of every document. -/
def suffix : Text := ".resume".toList

/-- A path with exactly one suffix more than it has without its last one. -/
def normalize (path : Text) : Text :=
  (dropTail? suffix path).getD path ++ suffix

/-- Every run of `./` shortened to a single one. `inRun` tells that the text follows such a
run. -/
def squeezeDots (inRun : Bool) : Text → Text
  | '.' :: '/' :: t => if inRun then squeezeDots true t else '.' :: '/' :: squeezeDots true t
  | c :: t => c :: squeezeDots false t
  | [] => []

/-- Every run of `./` after a slash removed. `afterSlash` tells that the text follows one. -/
def dropDots (afterSlash : Bool) : Text → Text
  | [] => []
  | '.' :: '/' :: t => if afterSlash then dropDots true t else '.' :: '/' :: dropDots true t
  | c :: t => c :: dropDots (c == '/') t

/-- The segments with slashes between, without the dot segments that change nothing. -/
def join (segments : List Text) : Text :=
  dropDots false (squeezeDots false (joinWith ['/'] segments))

/-- The joined segments, if none is missing. -/
def join? (segments : List (Option Text)) : Option Text :=
  (segments.mapM id).map join

end Vitae.Path
