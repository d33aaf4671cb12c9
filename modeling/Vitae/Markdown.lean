import Vitae.Markdown.Block
import Vitae.Markdown.Fence
import Vitae.Markdown.Inline
import Vitae.Markdown.Layout
import Vitae.Markdown.RawHtml

/-!
# Markdown

Markdown is text whose marks stand for the structure of a page. A text is brought into a normal
form; fenced code and raw HTML are set apart; the rest is read into a tree of blocks; passes over the
texts of the tree find links and emphasis; the tree is laid out and written; and what was set apart
returns to its places.
-/

namespace Vitae.Markdown

open Text

/-- The page that a text in Markdown describes, as HTML. -/
def toHtml (t : Text) : Text :=
  if t.all isBlank then []
  else
    let source := lines (Source.normalize t)
    let (source, insets) := Fence.extract [] source.length source
    let (source, insets) := RawHtml.extract insets (joinWith ['\n'] source)
    let (document, ds) := Block.document source
    let document := Inline.readInside ds (8 * t.length + 64) document
    let document := Layout.bare insets (Layout.element document)
    let page := trim (Html.ofRun [] document.content)
    trim (Insets.fill insets (insets.length + 1) page)

end Vitae.Markdown
