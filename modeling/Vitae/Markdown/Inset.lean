import Vitae.Markdown.Source
import Vitae.Markdown.Tree

/-!
# Insets

Finished markup is kept apart from the text it stands in. The text holds a mark in its place: the
number of the inset between two characters that no source can hold. Insets may hold marks of earlier
insets.
-/

namespace Vitae.Markdown

open Text

/-- Finished pieces of markup in the order of their numbers. -/
abbrev Insets := List Text

namespace Insets

/-- The number of the mark at the start of a text, and what follows the mark. -/
def mark? : Text → Option (Nat × Text)
  | [] => none
  | c :: t =>
    if c = markStart then
      let digits := t.takeWhile Char.isDigit
      match t.dropWhile Char.isDigit with
      | d :: rest =>
        if d = markEnd then some (digits.foldl (fun n c => 10 * n + (c.toNat - 48)) 0, rest) else none
      | [] => none
    else none

/-- The text with every mark of an inset replaced by it, and the marks in that down to `depth`
levels. -/
def fill (insets : Insets) : Nat → Text → Text
  | 0, t => t
  | depth + 1, t =>
    go depth t.length t
where
  /-- At most `fuel` characters are left to look at. -/
  go (depth : Nat) : Nat → Text → Text
    | 0, t => t
    | _, [] => []
    | fuel + 1, c :: t =>
      match (mark? (c :: t)).bind fun (number, rest) => insets[number]?.map (·, rest) with
      | some (inset, rest) => fill insets depth inset ++ go depth fuel rest
      | none => c :: go depth fuel t

/-- Whether markup starts with the tag of an element that stands on lines of its own, or with a
comment, a declaration or an instruction. -/
def startsBlock (html : Text) : Bool :=
  let tagOf (t : Text) : Bool :=
    let name := t.takeWhile fun c => c ≠ ' ' ∧ c ≠ '>'
    match name with
    | [] => false
    | c :: _ =>
      ['!', '?', '@', '%'].contains c ||
        Element.isBlockTag (String.ofList
          ((name.map Char.toLower).reverse.dropWhile (· = '/')).reverse)
  match html with
  | '<' :: '/' :: t => tagOf t
  | '<' :: t => tagOf t
  | _ => false

end Insets

end Vitae.Markdown
