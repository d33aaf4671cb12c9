import Vitae.Markdown.Definition
import Vitae.Markdown.Pattern

/-!
# Links and images

A link is a text in brackets with an address in parentheses after it, perhaps with a title in
quotes; or with the name of a definition in brackets after it; or alone, when the text is the name.
An exclamation mark before the brackets makes an image, whose text stands in for it.

Brackets nest in the text, and parentheses nest in the address. A quote in the address may start a
title, but this is known only where the parentheses close: a quote right before the closing
parenthesis ends a title, and without it the quotes belong to the address.
-/

namespace Vitae.Markdown

open Text

/-- What a link leads to. -/
structure Target where
  address : Text
  title : Option Text

namespace Target

/-! ### Addresses in parentheses -/

/-- A title without quotes around it, and with every blank as a space. -/
def cleanTitle (title : Run) : Text :=
  let t := plainTextOf (Run.trim title)
  let quotedIn (q : Char) : Bool := t.head? == some q && t.getLast? == some q
  let t := if quotedIn '"' || quotedIn '\x27' then t.tail.dropLast else t
  t.map fun c => if isBlank c then ' ' else c

/-- The target with an address and perhaps a title. -/
def ofRuns (address : Run) (title : Option Run) : Target :=
  ⟨trim (plainTextOf address), title.map cleanTitle⟩

/-- The title in quotes at the start of a run, and what follows it. -/
def quotedTitle? (r : Run) : Option (Run × Run) :=
  let between (q : Char) : Option (Run × Run) :=
    (Run.dropChars? q 1 r).bind fun inner =>
      let title := inner.takeWhile (!·.isChar q)
      (Run.dropChars? q 1 (inner.drop title.length)).map (title, ·)
  (between '\x27').or (between '"')

/-- The target with its address in angle brackets at the start of a run, and what follows the
closing parenthesis. -/
def angled? (r : Run) : Option (Target × Run) :=
  (Pattern.angled? r).bind fun (address, rest) =>
    let rest := Run.trimStart rest
    let (title, rest) :=
      match quotedTitle? rest with
      | some (title, rest) => (some title, Run.trimStart rest)
      | none => (none, rest)
    (Run.dropChars? ')' 1 rest).map (ofRuns address title, ·)

/-- How far an address in parentheses is read. -/
structure Progress where
  /-- The number of glyphs read. -/
  count : Nat
  /-- The parentheses that are open, where those in a title do not count. -/
  depth : Nat
  /-- The parentheses that are open if the quotes start no title. -/
  spare : Nat
  /-- Where the address ends if the quotes start no title. -/
  spareEnd : Option Nat
  /-- The first quote, and the position after it. -/
  quote : Option (Char × Nat)
  /-- The position after the last quote of the same kind. -/
  quoteEnd : Option Nat
  /-- The first quote of the other kind, and the position after it. -/
  other : Option (Char × Nat)
  /-- The position after the last quote of the other kind. -/
  otherEnd : Option Nat
  /-- The last character that is no space. -/
  last : Option Char

namespace Progress

/-- Before the first glyph. -/
def start : Progress := ⟨0, 1, 1, none, none, none, none, none, none⟩

/-- The title that ends right before the position, as the positions of its start and its end. -/
def title? (p : Progress) : Option (Nat × Nat) :=
  let ended (quote : Option (Char × Nat)) (stop : Option Nat) : Option (Nat × Nat) :=
    match quote, stop with
    | some (c, first), some stop => if p.last = some c then some (first, stop) else none
    | _, _ => none
  (ended p.quote p.quoteEnd).or (ended p.other p.otherEnd)

/-- After an opening parenthesis. -/
def afterOpening (p : Progress) : Progress :=
  if p.quote.isNone then { p with depth := p.depth + 1 } else { p with spare := p.spare - 1 }

/-- After a closing parenthesis. -/
def afterClosing (p : Progress) : Progress :=
  if p.title?.isSome then { p with depth := 0 }
  else if p.quote.isNone then { p with depth := p.depth - 1 }
  else if p.spare = 1 then { p with spare := 0, spareEnd := some (p.count + 1) }
  else { p with spare := p.spare - 1 }

/-- After a quote. -/
def afterQuote (p : Progress) (c : Char) : Progress :=
  match p.quote, p.other with
  | none, _ => { p with quote := some (c, p.count + 1), spare := p.depth, depth := 1 }
  | some (q, _), none =>
    if c ≠ q then { p with other := some (c, p.count + 1) }
    else { p with quoteEnd := some (p.count + 1) }
  | some (q, _), some _ =>
    if c = q then { p with quoteEnd := some (p.count + 1) }
    else { p with otherEnd := some (p.count + 1) }

/-- After a glyph, except for what is known of the last character. -/
def afterGlyph (p : Progress) (g : Glyph) : Progress :=
  let p' :=
    if g.isChar '(' then p.afterOpening
    else if g.isChar ')' then p.afterClosing
    else
      match g.char? with
      | some c => if c = '"' ∨ c = '\x27' then p.afterQuote c else p
      | none => p
  { p' with count := p.count + 1 }

/-- After the glyphs up to the parenthesis that closes the address, or after all of them. -/
def run (p : Progress) : Run → Progress
  | [] => p
  | g :: r =>
    let p' := p.afterGlyph g
    if p'.depth = 0 then p'
    else run (if g.isChar ' ' then p' else { p' with last := g.char? }) r

/-- The target that was read from the start of `body`, and what follows it. -/
def target? (p : Progress) (body : Run) : Option (Target × Run) :=
  if p.depth = 0 then
    let rest := body.drop p.count
    match p.title? with
    | some (first, stop) =>
      some (ofRuns (body.take (first - 1)) (some ((body.take (stop - 1)).drop first)), rest)
    | none => some (ofRuns (body.take (p.count - 1)) none, rest)
  else if p.spare = 0 then
    match p.spareEnd with
    | some stop => some (ofRuns (body.take (stop - 1)) none, body.drop stop)
    | none => some (ofRuns (body.take (body.length - 2)) none, body.drop (body.length - 1))
  else none

end Progress

/-- The target in parentheses at the start of a run, and what follows them. -/
def parenthesized? (r : Run) : Option (Target × Run) :=
  (Run.dropChars? '(' 1 r).bind fun r =>
    let body := Run.trimStart r
    (angled? body).or ((Progress.start.run body).target? body)

end Target

namespace Pattern

/-! ### Texts in brackets -/

/-- What is shown: the text of a link, or an image. -/
inductive Shown where
  | text
  | image
  deriving DecidableEq

/-- The text in brackets after an opening bracket, inside which `depth` more are open, and what
follows the closing bracket. -/
def bracketed? (depth : Nat) : Run → Option (Run × Run)
  | [] => none
  | g :: r =>
    if g.isChar ']' ∧ depth = 0 then some ([], r)
    else
      let depth :=
        if g.isChar ']' then depth - 1 else if g.isChar '[' then depth + 1 else depth
      (bracketed? depth r).map fun (inner, rest) => (g :: inner, rest)

/-- The text of a link or image that starts at a position, and what follows the closing bracket. -/
def label? (shown : Shown) (previous : Option Glyph) (r : Run) : Option (Run × Run) :=
  match shown with
  | .text =>
    if previous.any (·.isChar '!') then none else (Run.dropChars? '[' 1 r).bind (bracketed? 0)
  | .image =>
    (Run.dropChars? '!' 1 r).bind fun r => (Run.dropChars? '[' 1 r).bind (bracketed? 0)

/-- The element of a link or image. -/
def linkElement (shown : Shown) (target : Target) (label : Run) : Element :=
  let title := (target.title.map fun t => ("title", t)).toList
  match shown with
  | .text => .mk "a" (("href", target.address) :: title) false label
  | .image =>
    .mk "img" (("src", target.address) :: title ++ [("alt", plainTextOf label)]) false []

/-- A link or image with its address. -/
def link (shown : Shown) : Pattern := fun previous r =>
  let found? := (label? shown previous r).bind fun (label, rest) =>
    (Target.parenthesized? rest).map fun (target, rest) =>
      Finding.found (.held (linkElement shown target label)) rest
  found?.getD .nothing

/-! ### Names of definitions -/

/-- A name in lower case, and with rows of blanks as single spaces. -/
def normalName (r : Run) : Option Text :=
  (Run.toText? r).map fun t => squeeze false (lowercase t)
where
  /-- The text with every row of blanks as one space, where a blank may precede it. -/
  squeeze (afterBlank : Bool) : Text → Text
    | [] => []
    | c :: t =>
      if isBlank c then (if afterBlank then squeeze true t else ' ' :: squeeze true t)
      else c :: squeeze false t

/-- The name in brackets at the start of a run, which one blank may precede, and what follows. -/
def name? (r : Run) : Option (Run × Run) :=
  let r := if r.head?.any (·.satisfies Text.isBlank) then r.tail else r
  (Run.dropChars? '[' 1 r).bind fun r =>
    let name := r.takeWhile (!·.isChar ']')
    (Run.dropChars? ']' 1 (r.drop name.length)).map (name, ·)

/-- What is found for a link or image with a name, at the start of `r` and up to `rest`. -/
def named (shown : Shown) (ds : List Definition) (label name r rest : Run) : Finding :=
  match (normalName name).bind (Definition.named? · ds) with
  | some d =>
    let title := if d.title.isEmpty then none else some d.title
    .found (.held (linkElement shown ⟨d.address, title⟩ label)) rest
  | none => .passed (r.length - rest.length)

/-- A link or image with the name of a definition. An empty name means that the text is the
name. -/
def reference (shown : Shown) (ds : List Definition) : Pattern := fun previous r =>
  let found? := (label? shown previous r).bind fun (label, rest) =>
    (name? rest).map fun (name, rest) =>
      named shown ds label (if name.isEmpty then label else name) r rest
  found?.getD .nothing

/-- A link or image whose text is the name of a definition. -/
def shortReference (shown : Shown) (ds : List Definition) : Pattern := fun previous r =>
  match label? shown previous r with
  | some (label, rest) => named shown ds label label r rest
  | none => .nothing

end Pattern

end Vitae.Markdown
