import Vitae.Markdown.Pattern
import Vitae.Text.Letter

/-!
# Emphasis

One mark on both sides of a text emphasises it, two make it strong, and three do both. The marks
are asterisks or underscores; underscores count only where no letter or digit is outside of them,
so they can stand inside a word.

Several forms can fit at a position. They are tried in order, and only later forms are tried again
inside a form that fits.
-/

namespace Vitae.Markdown

open Text

/-- A text between marks, in the form it has. -/
inductive Emphasis where
  /-- One element. -/
  | single (tag : String) (inner : Run)
  /-- An element, then text, both inside an element. -/
  | innerFirst (outerTag innerTag : String) (inner after : Run)
  /-- Text, then an element, both inside an element. -/
  | innerLast (outerTag innerTag : String) (before inner : Run)

namespace Emphasis

/-- Whether a glyph is a character of a word. -/
def isWord (g : Glyph) : Bool :=
  g.satisfies isWordChar

/-- Whether a run does not start with a glyph that satisfies `p`. -/
def startsWithout (p : Glyph → Bool) (r : Run) : Bool :=
  !r.head?.any p

/-- What follows `n` marks, if no further mark follows them at once. -/
def exactly? (mark : Char) (n : Nat) (r : Run) : Option Run :=
  (Run.dropChars? mark n r).filter (startsWithout (·.isChar mark))

/-! ### The forms -/

/-- A form that emphasis can have: what it makes of the glyph before a position and the run from
there on. -/
abbrev Form := Option Glyph → Run → Option (Emphasis × Run)

/-- Three marks, then as many as `inside` at the end of the inner element and `outside` at the end
of the outer one. -/
def tripleForm (mark : Char) (outerTag innerTag : String) (inside outside : Nat) : Form := fun _ r =>
  let close (r : Run) : Option Run := Run.dropChars? mark outside r
  let rest (_ : Glyph) (r : Run) : Option (Run × Run) :=
    (Run.dropChars? mark inside r).bind fun r =>
      match close r with
      | some rest => some ([], rest)
      | none => Run.shortest? (fun _ => close) r
  (Run.dropChars? mark 3 r).bind fun r =>
    (Run.shortest? rest r).map fun (inner, after, rest) =>
      (.innerFirst outerTag innerTag inner after, rest)

/-- Two marks, then one at the start of the inner element, and three at the end. -/
def doubleForm (mark : Char) (inner? : Run → Option (Run × Run))
    (ends : Run → Bool) : Form := fun _ r =>
  let close (_ : Glyph) (r : Run) : Option Run := (Run.dropChars? mark 3 r).filter ends
  (exactly? mark 2 r).bind fun r =>
    (inner? r).bind fun (before, r) =>
      (Run.shortest? close r).map fun (inner, rest) => (.innerLast "strong" "em" before inner, rest)

/-- The forms with asterisks. -/
def asteriskForms : List Form :=
  let isMark (g : Glyph) : Bool := g.isChar '*'
  [ tripleForm '*' "strong" "em" 1 2,
    tripleForm '*' "em" "strong" 2 1,
    doubleForm '*' (fun r =>
        let before := r.takeWhile (!isMark ·)
        if before.isEmpty then none else (exactly? '*' 1 (r.drop before.length)).map (before, ·))
      fun _ => true,
    fun _ r => (Run.dropChars? '*' 2 r).bind fun r =>
      (Run.shortest? (fun _ r => Run.dropChars? '*' 2 r) r).map fun (inner, rest) =>
        (.single "strong" inner, rest),
    fun _ r => (Run.dropChars? '*' 1 r).bind fun r =>
      let inner := r.takeWhile (!isMark ·)
      if inner.isEmpty then none
      else (Run.dropChars? '*' 1 (r.drop inner.length)).map fun rest => (.single "em" inner, rest)]

/-- The form of one element with `n` underscores on both sides. -/
def underscoreForm (n : Nat) (tag : String) : Form := fun _ r =>
  let close (last : Glyph) (r : Run) : Option Run :=
    if last.isChar '_' then none else (Run.dropChars? '_' n r).filter (startsWithout isWord)
  (exactly? '_' n r).bind fun r =>
    (Run.shortest? close r).map fun (inner, rest) => (.single tag inner, rest)

/-- A form that does not fit after a character of a word. -/
def outsideWord (form : Form) : Form := fun previous r =>
  if previous.any isWord then none else form previous r

/-- The forms with underscores. -/
def underscoreForms : List Form :=
  [ tripleForm '_' "strong" "em" 1 2,
    tripleForm '_' "em" "strong" 2 1,
    outsideWord (doubleForm '_' (Run.shortest? fun last r =>
      if isWord last then none else exactly? '_' 1 r) (startsWithout isWord)),
    outsideWord (underscoreForm 2 "strong"),
    outsideWord (underscoreForm 1 "em")]

/-! ### Elements -/

/-- Every form with the forms after it. -/
def withLater : List Form → List (Form × List Form)
  | [] => []
  | form :: later => (form, later) :: withLater later

mutual

/-- The element of an emphasis, with emphasis inside it in the given forms. At most `fuel` glyphs
and elements are looked at one after the other or in one another. -/
def toElement (mark : Char) (forms : List Form) : Nat → Emphasis → Element
  | 0, .single tag inner => .plain tag inner
  | 0, .innerFirst outerTag innerTag inner after =>
    .plain outerTag (.element (.plain innerTag inner) :: after)
  | 0, .innerLast outerTag innerTag before inner =>
    .plain outerTag (before ++ [.element (.plain innerTag inner)])
  | fuel + 1, .single tag inner => .plain tag (within mark forms fuel none inner)
  | fuel + 1, .innerFirst outerTag innerTag inner after =>
    .plain outerTag
      (.element (.plain innerTag (within mark forms fuel none inner)) ::
        within mark forms fuel none after)
  | fuel + 1, .innerLast outerTag innerTag before inner =>
    .plain outerTag
      (within mark forms fuel none before ++
        [.element (.plain innerTag (within mark forms fuel none inner))])

/-- A run, after a given glyph, with the emphasis in it as elements. After one form that fits the
later forms are tried where it ends. -/
def within (mark : Char) (forms : List Form) : Nat → Option Glyph → Run → Run
  | 0, _, r => r
  | _, _, [] => []
  | fuel + 1, previous, g :: r =>
    let start : List Glyph × Option Glyph × Run := ([], previous, g :: r)
    let (found, previous, rest) :=
      (withLater forms).foldl
        (fun (found, previous, rest) (form, later) =>
          if rest.head?.any (·.isChar mark) then
            match form previous rest with
            | some (e, rest) =>
              (found ++ [.element (toElement mark later fuel e)], some (.char mark), rest)
            | none => (found, previous, rest)
          else (found, previous, rest)) start
    if found.isEmpty then g :: within mark forms fuel (some g) r
    else found ++ within mark forms fuel previous rest

end

/-- The pattern of emphasis with a mark. -/
def pattern (mark : Char) (forms : List Form) : Pattern := fun previous r =>
  let fitting (f : Form × List Form) : Option Finding :=
    (f.1 previous r).map fun (e, rest) =>
      .found (.held (toElement mark f.2 (2 * r.length + 2) e)) rest
  if r.head?.any (·.isChar mark) then ((withLater forms).findSome? fitting).getD .nothing
  else .nothing

end Emphasis

namespace Pattern

/-- Emphasis with asterisks. -/
def asterisks : Pattern := Emphasis.pattern '*' Emphasis.asteriskForms

/-- Emphasis with underscores. -/
def underscores : Pattern := Emphasis.pattern '_' Emphasis.underscoreForms

end Pattern

end Vitae.Markdown
