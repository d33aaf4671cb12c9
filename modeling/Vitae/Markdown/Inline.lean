import Vitae.Markdown.Emphasis
import Vitae.Markdown.Link

/-!
# Passes over running text

The patterns are applied to a text one after the other. What a pattern finds is put into the text as
a single glyph, and the pattern is tried again from the start of the text until it finds nothing
more. The texts inside a found element are read with the later patterns at once.

When the passes over a text have ended, its elements take their place in the tree. The texts of
their children are then read with all patterns again.
-/

namespace Vitae.Markdown

namespace Inline

/-- The patterns in the order in which they are applied. -/
def patterns (ds : List Definition) : List Pattern := [
  Pattern.code,
  Pattern.escape,
  Pattern.reference .text ds,
  Pattern.link .text,
  Pattern.link .image,
  Pattern.reference .image ds,
  Pattern.shortReference .text ds,
  Pattern.shortReference .image ds,
  Pattern.autolink,
  Pattern.automail,
  Pattern.lineBreak,
  Pattern.markup,
  Pattern.entity,
  Pattern.loneMarks,
  Pattern.asterisks,
  Pattern.underscores]

/-! ### Applying patterns -/

/-- The first finding of a pattern: the text before it, the glyph found, and the text after it. The
text before the position is given backwards, and `skip` glyphs are passed over. -/
def search (p : Pattern) : Nat → Run → Run → Option (Run × Glyph × Run)
  | _, _, [] => none
  | skip + 1, back, g :: r => search p skip (g :: back) r
  | 0, back, g :: r =>
    match p back.head? (g :: r) with
    | .nothing => search p 0 (g :: back) r
    | .passed count => search p (count - 1) (g :: back) r
    | .found piece rest => some (back.reverse, piece, rest)

/-- A found glyph with the texts in it changed: by `inside` the text of the element and those of its
children, and by `after` the texts that follow the children. -/
def refine (inside after : Run → Run) : Glyph → Glyph
  | .held e =>
    if e.isVerbatim then .held e
    else
      let (lead, rest) := Run.segments e.content
      let child (c : Element) : Element :=
        let (lead, rest) := Run.segments c.content
        c.withContent (Run.ofSegments (inside lead) rest)
      .held (e.withContent
        (Run.ofSegments (inside lead) (rest.map fun (c, tail) => (child c, after tail))))
  | g => g

/-- A text after patterns were applied in order. At most `fuel` searches are made one after the other
or in one another. -/
def apply : Nat → List Pattern → Run → Run
  | 0, _, r => r
  | _, [], r => r
  | fuel + 1, p :: later, r =>
    match search p 0 [] r with
    | none => apply fuel later r
    | some (before, g, rest) =>
      let g := refine (apply fuel later) (apply fuel (p :: later)) g
      apply fuel (p :: later) (before ++ g :: rest)

/-! ### Settling -/

mutual

/-- A glyph when the passes have ended: what was set aside is text again, and what was held is an
element. -/
def settleGlyph : Glyph → List Glyph
  | .aside t => Run.ofText t
  | .held e => [.element (settleElement e)]
  | .element e => [.element (settleLead e)]
  | .char c => [.char c]
  | .escaped t => [.escaped t]
  | .raw html => [.raw html]

/-- An element with its texts settled, and with the leading texts of its children settled. -/
def settleElement : Element → Element
  | .mk tag attributes verbatim content => .mk tag attributes verbatim (settle content)

/-- A run with its glyphs settled. -/
def settle : List Glyph → List Glyph
  | [] => []
  | g :: r => settleGlyph g ++ settle r

/-- An element with its leading text settled. -/
def settleLead : Element → Element
  | .mk tag attributes verbatim content => .mk tag attributes verbatim (settleStart content)

/-- A run with the glyphs before the first element settled. -/
def settleStart : List Glyph → List Glyph
  | [] => []
  | .element e :: r => .element e :: r
  | g :: r => settleGlyph g ++ settleStart r

end

/-! ### Walking through a document -/

/-- A text after all passes. -/
def pass (ds : List Definition) (r : Run) : Run :=
  if r.isEmpty then [] else settle (apply (20 * (r.length + 2)) (patterns ds) r)

mutual

/-- An element with passes made over the texts of its children and what is found in them. At most
`fuel` elements are met one after the other or in one another. -/
def readInside (ds : List Definition) : Nat → Element → Element
  | 0, e => e
  | fuel + 1, e =>
    let (lead, children) := Run.segments e.content
    e.withContent (Run.ofSegments lead (readChildren ds fuel children))

/-- The same for children with the text after each. The elements found in such a text are the next
children. -/
def readChildren (ds : List Definition) : Nat → List (Element × Run) → List (Element × Run)
  | 0, children => children
  | _, [] => []
  | fuel + 1, (child, tail) :: rest =>
    let (tail, found) := Run.segments (pass ds tail)
    (readChild ds fuel child, tail) :: readChildren ds fuel (found ++ rest)

/-- The same for a child. -/
def readChild (ds : List Definition) : Nat → Element → Element
  | 0, e => e
  | fuel + 1, e =>
    if e.isVerbatim then e
    else
      let (lead, children) := Run.segments e.content
      let (lead, found) := Run.segments (pass ds lead)
      if children.isEmpty then
        e.withContent (Run.ofSegments lead
          (found.map fun (inner, tail) => (readInside ds fuel inner, tail)))
      else e.withContent (Run.ofSegments lead (readChildren ds fuel (found ++ children)))

end

end Inline

end Vitae.Markdown
