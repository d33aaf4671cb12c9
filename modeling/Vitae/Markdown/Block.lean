import Vitae.Markdown.BlockKind
import Vitae.Markdown.Html

/-!
# Reading blocks

Blocks are read in order into the element they belong to. What an element holds already matters:
code continues code, a quotation a quotation, and items the list before them. A list whose items
have empty lines between them is loose, and the texts of its items become paragraphs.
-/

namespace Vitae.Markdown

open Text

/-- Reading blocks collects link definitions. -/
abbrev Reading := StateM (List Definition)

namespace Block

/-- The blocks of a text: what stands between empty lines. -/
def ofText : Text → List Text
  | [] => [[]]
  | '\n' :: '\n' :: t => [] :: ofText t
  | c :: t =>
    match ofText t with
    | [] => [[c]]
    | b :: bs => (c :: b) :: bs

/-! ### Changing elements -/

/-- The element with its last element replaced by what `f` reads into it. -/
def updateLast (e : Element) (f : Element → Reading Element) : Reading Element :=
  match e.lastSplit? with
  | none => pure e
  | some (before, last, tail) => do
    let last ← f last
    pure (e.withContent (before ++ .element last :: tail))

/-- The element that is reached in a number of steps to the last element. -/
def descend : Nat → Element → Element
  | 0, e => e
  | n + 1, e => ((e.last?).map (descend n)).getD e

/-- The element with the one that `descend` reaches replaced by what `f` reads into it. -/
def updateBelow (f : Element → Reading Element) : Nat → Element → Reading Element
  | 0, e => f e
  | n + 1, e => updateLast e (updateBelow f n)

/-- The code in an element of preformatted code. -/
def codeOf? (e : Element) : Option Element :=
  if e.tag = "pre" then
    match (Run.segments e.content).2 with
    | (code, _) :: _ => if code.tag = "code" then some code else none
    | [] => none
  else none

/-- The last element, if it is preformatted code. -/
def lastCode? (e : Element) : Option Element :=
  e.last?.bind codeOf?

/-- The element with more text at the end of the code it ends with. -/
def extendCode (e : Element) (more : Text) : Element :=
  match lastCode? e with
  | none => e
  | some code => e.mapLast (·.withContent [.element (code.append (Run.ofText more))])

/-- The element with indented code at its end. -/
def addCode (e : Element) (body : Text) : Element :=
  let text := Html.escapeCode (trimEnd body) ++ ['\n']
  match lastCode? e with
  | some _ => extendCode e ('\n' :: text)
  | none => e.append [.element (.plain "pre" [.element (.verbatimText "code" text)])]

/-- The element with a new element at its end, whose content is a text. -/
def addText (e : Element) (tag : String) (t : Text) : Element :=
  e.append [.element (.plain tag (Run.ofText t))]

/-- The element with a block of text at its end: in a tight item as its own text, and else as a
paragraph. -/
def addParagraph (place : Place) (e : Element) (block : Text) : Element :=
  if block.all isBlank then e
  else if place = .item then
    let text := if e.last?.isSome then block else trimStart block
    if e.content.isEmpty then e.append (Run.ofText text)
    else e.append (Run.ofText ('\n' :: text))
  else addText e "p" (trimStart block)

/-- The item with its leading text as a paragraph. -/
def wrapLead (e : Element) : Element :=
  let (lead, rest) := Run.segments e.content
  if lead.isEmpty then e
  else e.withContent (Run.ofSegments [] ((.plain "p" lead, []) :: rest))

/-- The item with the text at its end as a paragraph. -/
def wrapTail (e : Element) : Element :=
  match e.lastSplit? with
  | some (before, last, g :: tail) =>
    e.withContent (before ++
      [.element last, .element (.plain "p" (Run.trimStart (g :: tail)))])
  | _ => e

/-! ### Indentation -/

/-- The lines with the indentation of `levels` levels taken off those that have it. -/
def takeOff (levels : Nat) (block : Text) : Text :=
  let indent := List.replicate (tabWidth * levels) ' '
  BlockKind.ofLines ((lines block).map fun line => (dropHead? indent line).getD line)

/-- The levels and the steps to the last element that lead to the list or item a block belongs to,
which is indented by `indent` levels. At most `fuel` steps are taken. -/
def levelAndSteps (indent : Nat) : Nat → Nat → Element → Nat × Nat
  | 0, level, _ => (level, 0)
  | fuel + 1, level, e =>
    if indent ≤ level then (level, 0)
    else
      match e.last? with
      | some child =>
        if BlockKind.isList child || child.tag = "li" then
          let (found, steps) :=
            levelAndSteps indent fuel (if BlockKind.isList child then level + 1 else level) child
          (found, steps + 1)
        else (level, 0)
      | none => (level, 0)

/-! ### Reading -/

/-- An empty item. -/
def emptyItem : Element := .plain "li" []

/-- The blocks in front of others, unless they are empty. -/
def before (block : Text) (rest : List Text) : List Text :=
  if block.isEmpty then rest else block :: rest

/-- The blocks in front of others, unless they are blank. -/
def beforeUnlessBlank (block : Text) (rest : List Text) : List Text :=
  if block.all isBlank then rest else block :: rest

/-- The element with blocks read into it. At most `fuel` blocks are read one after the other or in
one another. -/
def read : Nat → Place → Element → List Text → Reading Element
  | 0, _, parent, _ => pure parent
  | _, _, parent, [] => pure parent
  | fuel + 1, place, parent, block :: rest => do
    let addItem (list : Element) (item : Text) : Reading Element :=
      if ListItem.isIndented item then updateLast list fun li => read fuel .item li [item]
      else do
        let li ← read fuel .item emptyItem [item]
        pure (list.append [.element li])
    match BlockKind.ofBlock place parent block with
    | .gap none => read fuel place (extendCode parent ['\n', '\n']) rest
    | .gap (some after) => read fuel place (extendCode parent ['\n']) (before after rest)
    | .nested =>
      let indent := (block.takeWhile (· = ' ')).length / tabWidth
      let (level, steps) :=
        levelAndSteps indent (block.length + 1) (if place = .item then 1 else 0) parent
      let block := takeOff level block
      let parent ←
        if parent.tag = "li" then
          if parent.last?.any BlockKind.isList then
            updateLast parent fun list => read fuel .indented list [block]
          else read fuel .indented parent [block]
        else
          updateBelow (fun e =>
            if e.tag = "li" then read fuel .indented e [block]
            else if e.last?.any (·.tag = "li") then
              updateLast e fun li => read fuel .indented (wrapLead li) (ofText block)
            else do
              let li ← read fuel .indented emptyItem [block]
              pure (e.append [.element li])) steps parent
      read fuel place parent rest
    | .code body after => read fuel place (addCode parent body) (before after rest)
    | .table t => read fuel place (parent.append [.element t.toElement]) rest
    | .heading lead level title after =>
      let parent ← read fuel place parent (before lead [])
      let after := if place = .looseItem then takeOff 1 after else after
      read fuel place (addText parent ("h" ++ toString level) title) (before after rest)
    | .underlined level title after =>
      read fuel place (addText parent ("h" ++ toString level) title) (before after rest)
    | .rule lead after =>
      let parent ← read fuel place parent (before lead [])
      read fuel place (parent.append [.element (.plain "hr" [])]) (before after rest)
    | .items tag texts =>
      let parent ←
        if parent.last?.any BlockKind.isList then
          updateLast parent fun list => do
            let list := list.mapLast fun li => wrapTail (wrapLead li)
            let li ← read fuel .looseItem emptyItem (texts.take 1)
            (texts.drop 1).foldlM addItem (list.append [.element li])
        else if BlockKind.isList parent then texts.foldlM addItem parent
        else do
          let list ← texts.foldlM addItem (.plain tag [])
          pure (parent.append [.element list])
      read fuel place parent rest
    | .quote lead inner =>
      let parent ← read fuel place parent [lead]
      let parent ←
        if parent.last?.any (·.tag = "blockquote") then
          updateLast parent fun quote => read fuel .flow quote (ofText inner)
        else do
          let quote ← read fuel .flow (.plain "blockquote" []) (ofText inner)
          pure (parent.append [.element quote])
      read fuel place parent rest
    | .definition lead d after =>
      modify (· ++ [d])
      let dropEnds (t : Text) : Text := (t.reverse.dropWhile (· = '\n')).reverse
      read fuel place parent (beforeUnlessBlank (dropEnds lead)
        (beforeUnlessBlank (after.dropWhile (· = '\n')) rest))
    | .paragraph => read fuel place (addParagraph place parent block) rest

/-- The document that a text describes, and its link definitions. -/
def document (t : Text) : Element × List Definition :=
  (read (4 * t.length + 16) .flow (.plain "div" []) (ofText t)).run []

end Block

end Vitae.Markdown
