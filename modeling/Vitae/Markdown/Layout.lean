import Vitae.Markdown.Inset
import Vitae.Markdown.Tree

/-!
# Layout

Elements that stand on lines of their own are followed by a line end, and one that starts its
parent is preceded by one. A line break is followed by a line end, and code ends in one. A paragraph
that holds nothing but finished markup which stands on lines of its own gives way to it.
-/

namespace Vitae.Markdown

namespace Layout

/-- A run with a line end in place of the blank text before its first element. -/
def startOnLine (r : Run) : Run :=
  .char '\n' :: r.dropWhile (!·.isElement)

/-- Whether no text but blanks precedes the first element of a run. -/
def startsBlank (r : Run) : Bool :=
  Run.isBlank (r.takeWhile (!·.isElement))

/-- A run without blanks at its end. -/
def trimEnd (r : Run) : Run :=
  (r.reverse.dropWhile (·.satisfies Text.isBlank)).reverse

/-- The content of preformatted code with one line end after the code. -/
def endCode : Run → Run
  | .element code :: r =>
    if code.tag = "code" ∧ !code.content.any Glyph.isElement then
      .element (code.withContent (trimEnd code.content ++ [.char '\n'])) :: r
    else .element code :: r
  | r => r

/-- Whether the first element of a run stands on lines of its own. -/
def startsWithBlock (r : Run) : Bool :=
  match r.dropWhile (!·.isElement) with
  | .element e :: _ => Element.isBlockTag e.tag
  | _ => false

mutual

/-- An element with its content laid out. -/
def element : Element → Element
  | .mk tag attributes verbatim content =>
    let stands := Element.isBlockTag tag && tag ≠ "pre"
    let content := run stands content
    let content :=
      if tag = "pre" then endCode content
      else if stands && startsBlank content && startsWithBlock content then startOnLine content
      else content
    .mk tag attributes verbatim content

/-- The content of an element laid out. The element `stands` on lines of its own. -/
def run (stands : Bool) : List Glyph → List Glyph
  | [] => []
  | .element e :: r =>
    let rest := run stands r
    let isLast := startsBlank rest
    let rest :=
      if e.tag = "br" then if isLast then startOnLine rest else .char '\n' :: rest
      else if stands && Element.isBlockTag e.tag && isLast then startOnLine rest
      else rest
    .element (element e) :: rest
  | g :: r => g :: run stands r

end

/-! ### Finished markup -/

/-- Whether a run is one piece of finished markup that stands on lines of its own. -/
def isFinished (insets : Insets) (r : Run) : Bool :=
  match r with
  | [.raw html] => Insets.startsBlock html
  | _ =>
    match (Run.toText? r).bind Insets.mark? with
    | some (number, []) => insets[number]?.any Insets.startsBlock
    | _ => false

mutual

/-- An element without paragraphs around finished markup in it. -/
def bare (insets : Insets) : Element → Element
  | .mk tag attributes verbatim content =>
    .mk tag attributes verbatim (bareRun insets content)

/-- A run without paragraphs around finished markup in it. -/
def bareRun (insets : Insets) : List Glyph → List Glyph
  | [] => []
  | .element (.mk tag attributes verbatim content) :: r =>
    let inner := bareRun insets content
    (if tag = "p" ∧ isFinished insets inner then inner
      else [.element (.mk tag attributes verbatim inner)]) ++ bareRun insets r
  | g :: r => g :: bareRun insets r

end

end Layout

end Vitae.Markdown
