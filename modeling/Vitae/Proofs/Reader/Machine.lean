import Vitae.Cursor
import Vitae.Proofs.Reader.Lookahead

/-!
# The reader as a machine

The phase of the reader says in one value what it is doing. Here everything that the reader
remembers has a place of its own, as in the machine that reads a document from a cursor in two
loops: the header that is open, if any; the word that is being collected; the buffer of the header;
the identifier of the label that is being read; the titles of the open sections. Nothing in the
type keeps these from contradicting each other: a header can be a place that no character completes,
and there can be a word and a buffer at the same time.

`Machine.turn` is one turn of a loop. The first loop moves the cursor and takes the character under
it; a block of prose sets the cursor behind its closing word. The second loop completes what the end
of the document has cut off. `Machine.Took` says that a machine has come through an outcome of the
reader. As long as the machine is consistent (`Machine.Consistent`), what completes a header or takes
a character is such an outcome (`Machine.took_complete`, `took_collect`, `took_fill`).
-/

namespace Vitae

open Text

/-- The loops of the machine. -/
inductive Loop
  /-- The characters of the document are taken one after the other. -/
  | characters
  /-- What the end of the document has cut off is completed. -/
  | ending
  deriving DecidableEq

/-- A document that is being read, and what the reader remembers of it. -/
structure Machine where
  cursor : Cursor
  loop : Loop
  /-- The place of the open header, if one is open. -/
  header : Option Place
  word : Text
  buffer : Text
  labelId : Text
  titles : List Text
  yield : Yield
  halt : Option Halt

/-- What a turn leads to. -/
inductive Turn
  /-- The loops go on. -/
  | on (m : Machine)
  /-- The run is over: the loops have come to their end, or something has made them halt. -/
  | ended (m : Machine)
  /-- The open header is a place that no character completes. -/
  | stuck

/-- The place where a header is collected. -/
def Header.place : Header → Place
  | .title => .title
  | .labelId => .labelId
  | .labelContent _ => .labelContent
  | .blockId => .blockId
  | .directive => .directive

namespace Place

/-- The character that completes a header, for the places that are headers. -/
def stop? : Place → Option Char
  | .title | .labelContent | .directive => some '\n'
  | .labelId | .blockId => some ':'
  | .top | .inSection | .blockBody => none

/-- The header of a place, with the identifier of the label that is being read. -/
def header? (labelId : Text) : Place → Option Header
  | .title => some .title
  | .labelId => some .labelId
  | .labelContent => some (.labelContent labelId)
  | .blockId => some .blockId
  | .directive => some .directive
  | .top | .inSection | .blockBody => none

/-- The header that is open after a header has been completed, if one is: the identifier of a label
leads to its content. -/
def next? : Place → Option Place
  | .labelId => some .labelContent
  | _ => none

theorem next?_bind_next? (header : Option Place) : (header.bind next?).bind next? = none := by
  cases header with
  | none => rfl
  | some place => cases place <;> rfl

/-- The places that are headers are those that some character completes. -/
theorem stop?_eq (labelId : Text) (place : Place) :
    place.stop? = (place.header? labelId).map Header.stop := by
  cases place <;> rfl

theorem header?_place {labelId : Text} {header : Header} (h : ∀ id, header ≠ .labelContent id) :
    header.place.header? labelId = some header := by
  cases header with
  | labelContent id => exact absurd rfl (h id)
  | title | labelId | blockId | directive => rfl

end Place

theorem Cursor.advance_zero (c : Cursor) : c.advance 0 = c := by
  simp [Cursor.advance]

namespace Machine

/-! ### Turns -/

/-- The machine before the first character of a document. -/
def start (source : Text) : Machine :=
  ⟨.start source, .characters, none, [], [], [], [], .empty, none⟩

/-- The place that the machine shows. -/
def place (m : Machine) : Place :=
  m.header.getD (if m.titles.isEmpty then .top else .inSection)

/-- The machine with the cursor at the next character. -/
def advanced (m : Machine) : Machine :=
  { m with cursor := m.cursor.advance 1 }

/-- The machine after it has yielded something more. -/
def emit (m : Machine) (y : Yield) : Machine :=
  { m with yield := m.yield ++ y }

/-- The machine after a complete keyword. -/
def dispatch (m : Machine) (keyword : Text) : Machine :=
  match Reader.header? keyword with
  | some header => { m with header := some header.place }
  | none => if keyword = "end".toList then { m with titles := m.titles.dropLast } else m

/-- One more character between constructs. -/
def collect (m : Machine) (c : Char) : Machine :=
  if isBlank c then m
  else
    let word := m.word ++ [c]
    if word ∈ Reader.keywords then { m with word := [] }.dispatch word else { m with word }

/-- One more character of a header. -/
def fill (m : Machine) (c : Char) : Machine :=
  { m with buffer := m.buffer ++ [c] }

variable (env : Settings) (opened : List Text) (nested : Text → Text → Reading)

/-- A complete title opens a section. -/
def openSection (m : Machine) (title : Text) : Machine :=
  { m.emit (.row ⟨m.titles.length, Node.sectionKind, .text title⟩) with
    titles := m.titles ++ [title] }

/-- A label with its identifier and its content. -/
def addLabel (m : Machine) (id content : Text) : Machine :=
  m.emit (.noted (Reader.literalRemarks env content ++ Reader.literalRemarks env id) ++
    .row ⟨m.titles.length, Node.labelKind,
      .label (Reader.literal env id) (Reader.literal env content)⟩)

/-- A block of prose. The cursor is set to the last character of the closing word, or to the last
one of the document, while the machine shows that it is inside the body. -/
def readBlock (m : Machine) (id : Text) : Machine :=
  let m := { m with header := some .blockBody }
  let found := TextBlock.find m.cursor.remaining
  let unterminated := if found.terminated then [] else [.unterminatedBlock (trim id)]
  let m := { m with cursor := m.cursor.seek (m.cursor.position + found.consumed) }
  { m.emit (.noted (unterminated ++ Reader.literalRemarks env id) ++
      .called (.render found.body) m.place ++
      .row ⟨m.titles.length, Node.blockKind,
        .block (Reader.literal env id) (trim found.body) (env.render found.body)⟩) with
    header := none }

/-- An import. The header stays open until the other document has been read. -/
def addImport (m : Machine) (directive : Text) : Machine :=
  match Import.target env.root directive with
  | .error h => { m with halt := some h }
  | .ok path =>
    if path ∈ opened then { m with halt := some (.refused (.cycle path)) }
    else
      let m := m.emit (.noted (Reader.fetchRemarks env path) ++ .called (.fetch path) m.place)
      match env.library.fetch path with
      | .error fault => { m with halt := some (.refused (.unreadable path fault)) }
      | .ok source =>
        let inner := nested path source
        match inner.halt with
        | some h =>
          { m.emit (inner.yield.imported m.titles.length).withoutRows with halt := some h }
        | none => { m.emit (inner.yield.imported m.titles.length) with header := none }

/-- A complete header. The buffer is emptied first. A place that is no header leads nowhere. -/
def complete (m : Machine) (place : Place) : Machine :=
  let t := m.buffer
  let m := { m with buffer := [] }
  match place with
  | .title => { m with header := none }.openSection (trim t)
  | .labelId => { m with labelId := t, header := some .labelContent }
  | .labelContent => { m with header := none }.addLabel env m.labelId t
  | .blockId => m.readBlock env t
  | .directive => m.addImport env opened nested t
  | .top | .inSection | .blockBody => m

/-- The turn that ends with a machine: what has made it halt ends the run. -/
def settled (m : Machine) : Turn :=
  match m.halt with
  | none => .on m
  | some _ => .ended m

/-- A turn of the loop that the machine is in. -/
def turn (m : Machine) : Turn :=
  match m.loop with
  | .characters =>
    let m := m.advanced
    match m.cursor.current? with
    | none => .on { m with loop := .ending }
    | some c =>
      match m.header with
      | none => .on (m.collect c)
      | some place =>
        match place.stop? with
        | none => .stuck
        | some stop =>
          if c = stop then (m.complete env opened nested place).settled
          else .on (m.fill c)
  | .ending =>
    match m.header with
    | none => .ended m
    | some place => (m.complete env opened nested place).settled

/-! ### The state of the machine -/

/-- The state of the reader that the machine is in. -/
def state (m : Machine) : ReaderState where
  phase :=
    match m.header.bind (Place.header? m.labelId) with
    | some header => .filling header m.buffer
    | none => .seeking m.word
  opened := m.titles

/-- What is left of reading the document. -/
def reading (m : Machine) : Reading :=
  ⟨m.yield, m.state, m.cursor.position.toNat, m.halt⟩

/-- What the machine remembers does not contradict itself. -/
structure Consistent (m : Machine) : Prop where
  /-- An open header can be completed. -/
  stop : ∀ place, m.header = some place → place.stop? ≠ none
  /-- Without a header there is no buffer. -/
  buffer : m.header = none → m.buffer = []
  /-- With a header there is no word. -/
  word : m.header ≠ none → m.word = []
  solid : ∀ c ∈ m.word, isBlank c = false
  /-- The word has not come to a keyword. -/
  unspelled : ∀ keyword ∈ Reader.keywords, ¬keyword <+: m.word

/-- From the machine `m`, another has come through an outcome of the reader. -/
structure Took (m m' : Machine) (o : Outcome) : Prop where
  state : m'.state = o.state
  yield : m'.yield = m.yield ++ o.yield
  halt : m'.halt = o.halt
  cursor : m'.cursor = m.cursor.advance o.used
  loop : m'.loop = m.loop

variable {env opened nested} {m : Machine} {place : Place}

theorem state_seeking {word : Text} (hheader : m.header = none) (hword : m.word = word) :
    m.state = ⟨.seeking word, m.titles⟩ := by
  rw [state, hheader, hword]
  rfl

theorem state_filling {header : Header} {buffer : Text} (hheader : m.header = some place)
    (hplace : place.header? m.labelId = some header) (hbuffer : m.buffer = buffer) :
    m.state = ⟨.filling header buffer, m.titles⟩ := by
  rw [state, hheader, Option.bind_some, hplace, hbuffer]

theorem Consistent.exists_header (hm : m.Consistent) (h : m.header = some place) :
    ∃ header, place.header? m.labelId = some header ∧ place.stop? = some header.stop := by
  have hstop := hm.stop place h
  rw [Place.stop?_eq m.labelId] at hstop ⊢
  cases hheader : place.header? m.labelId with
  | none => exact absurd (by rw [hheader]; rfl) hstop
  | some header => exact ⟨header, rfl, rfl⟩

/-! ### Keywords -/

theorem keyword_ne_nil : ∀ keyword ∈ Reader.keywords, keyword ≠ [] := by
  decide

theorem header?_ne_labelContent {keyword : Text} {header : Header}
    (h : Reader.header? keyword = some header) (id : Text) : header ≠ .labelContent id := by
  unfold Reader.header? at h
  split_ifs at h <;> cases h <;> simp

theorem dispatch_keeps (m : Machine) (keyword : Text) :
    ∃ header titles, m.dispatch keyword = { m with header, titles } := by
  unfold dispatch
  split
  · exact ⟨_, m.titles, rfl⟩
  · split_ifs
    · exact ⟨m.header, _, rfl⟩
    · exact ⟨m.header, m.titles, rfl⟩

theorem collect_keeps (m : Machine) (c : Char) :
    ∃ header titles word, m.collect c = { m with header, titles, word } := by
  unfold collect
  dsimp only
  split_ifs
  · exact ⟨m.header, m.titles, m.word, rfl⟩
  · obtain ⟨header, titles, hdispatch⟩ := dispatch_keeps { m with word := [] } (m.word ++ [c])
    exact ⟨header, titles, [], hdispatch⟩
  · exact ⟨m.header, m.titles, _, rfl⟩

theorem state_dispatch (hheader : m.header = none) (hword : m.word = []) (hbuffer : m.buffer = [])
    (keyword : Text) : (m.dispatch keyword).state = Reader.dispatch m.state keyword := by
  unfold dispatch Reader.dispatch
  cases hkeyword : Reader.header? keyword with
  | some header =>
    have hplace : header.place.header? m.labelId = some header :=
      Place.header?_place (header?_ne_labelContent hkeyword)
    exact state_filling (m := { m with header := some header.place }) rfl hplace hbuffer
  | none =>
    dsimp only
    split_ifs
    · exact state_seeking (m := { m with titles := m.titles.dropLast }) hheader hword
    · exact state_seeking hheader hword

/-- With neither a word nor a buffer the machine is consistent, if the header can be completed. -/
theorem consistent_of_nil (hstop : ∀ place, m.header = some place → place.stop? ≠ none)
    (hword : m.word = []) (hbuffer : m.buffer = []) : m.Consistent := by
  refine ⟨hstop, fun _ => hbuffer, fun _ => hword, ?_, fun keyword hmem hprefix => ?_⟩
  · rw [hword]
    exact List.forall_mem_nil _
  · rw [hword] at hprefix
    exact keyword_ne_nil keyword hmem (List.prefix_nil.1 hprefix)

theorem consistent_dispatch (hm : m.Consistent) (hword : m.word = []) (hbuffer : m.buffer = [])
    (keyword : Text) : (m.dispatch keyword).Consistent := by
  unfold dispatch
  split
  · rename_i header _
    refine consistent_of_nil ?_ hword hbuffer
    rintro _ ⟨⟩
    cases header <;> exact Option.some_ne_none _
  · split_ifs
    · exact consistent_of_nil hm.stop hword hbuffer
    · exact hm

/-! ### Characters between constructs -/

theorem Consistent.forget (hm : m.Consistent) (hheader : m.header = none) :
    Consistent { m with word := [] } :=
  consistent_of_nil hm.stop rfl (hm.buffer hheader)

theorem consistent_collect (hm : m.Consistent) (hheader : m.header = none) (c : Char) :
    (m.collect c).Consistent := by
  unfold collect
  dsimp only
  split_ifs with hblank hkeyword
  · exact hm
  · exact consistent_dispatch (hm.forget hheader) rfl (hm.buffer hheader) _
  · refine ⟨hm.stop, hm.buffer, fun h => absurd hheader h, ?_, fun keyword hmem hprefix => ?_⟩
    · exact List.forall_mem_append.2
        ⟨hm.solid, List.forall_mem_singleton.2 (Bool.not_eq_true _ ▸ hblank)⟩
    · rcases List.prefix_concat_iff.1 hprefix with rfl | hprefix
      · exact hkeyword hmem
      · exact hm.unspelled keyword hmem hprefix

theorem state_collect (hm : m.Consistent) (hheader : m.header = none) (c : Char) :
    (m.collect c).state = Reader.collect m.state m.word c := by
  unfold collect Reader.collect
  dsimp only
  split_ifs
  · rfl
  · have hdispatch := state_dispatch (m := { m with word := [] }) hheader rfl
      (hm.buffer hheader) (m.word ++ [c])
    rw [hdispatch, state_seeking (m := { m with word := [] }) hheader rfl,
      state_seeking hheader rfl]
    rfl
  · rw [state_seeking hheader rfl]
    exact state_seeking (m := { m with word := m.word ++ [c] }) hheader rfl

theorem took_collect (hm : m.Consistent) (hheader : m.header = none) (halt : m.halt = none)
    (c : Char) : Took m (m.collect c) (.moved (Reader.collect m.state m.word c)) := by
  obtain ⟨header, titles, word, hkeeps⟩ := collect_keeps m c
  refine ⟨state_collect hm hheader c, ?_, ?_, ?_, ?_⟩ <;> rw [hkeeps]
  · exact (Yield.append_empty _).symm
  · exact halt
  · exact (Cursor.advance_zero m.cursor).symm

/-! ### Characters of a header -/

theorem consistent_fill (hm : m.Consistent) (hheader : m.header ≠ none) (c : Char) :
    (m.fill c).Consistent :=
  ⟨hm.stop, fun h => absurd h hheader, hm.word, hm.solid, hm.unspelled⟩

theorem took_fill (hheader : m.header = some place) (halt : m.halt = none) {header : Header}
    (hplace : place.header? m.labelId = some header) (c : Char) :
    Took m (m.fill c) (.moved ⟨.filling header (m.buffer ++ [c]), m.titles⟩) :=
  ⟨state_filling hheader hplace rfl, (Yield.append_empty _).symm, halt,
    (Cursor.advance_zero _).symm, rfl⟩

/-! ### Complete headers -/

variable (env opened nested)

/-- An import keeps the header open if it halts the machine, and closes it otherwise. -/
theorem addImport_keeps (m : Machine) (halt : m.halt = none) (directive : Text) :
    ∃ header yield halt, m.addImport env opened nested directive = { m with header, yield, halt } ∧
      (halt = none ∧ header = none ∨ halt ≠ none ∧ header = m.header) := by
  unfold addImport
  split
  · exact ⟨m.header, m.yield, _, rfl, .inr ⟨Option.some_ne_none _, rfl⟩⟩
  · dsimp only
    split_ifs
    · exact ⟨m.header, m.yield, _, rfl, .inr ⟨Option.some_ne_none _, rfl⟩⟩
    · split
      · exact ⟨m.header, _, _, rfl, .inr ⟨Option.some_ne_none _, rfl⟩⟩
      · split
        · exact ⟨m.header, _, _, rfl, .inr ⟨Option.some_ne_none _, rfl⟩⟩
        · exact ⟨none, _, m.halt, rfl, .inl ⟨halt, rfl⟩⟩

theorem took_addImport (hheader : m.header = some .directive) (hword : m.word = [])
    (hbuffer : m.buffer = []) (halt : m.halt = none) {s : ReaderState}
    (hs : s.opened = m.titles) (directive : Text) :
    Took m (m.addImport env opened nested directive)
      (Reader.addImport env opened nested s directive) := by
  have hopen : m.state = s.fill .directive := by
    rw [state_filling hheader rfl hbuffer, ← hs]
    rfl
  have hplace : m.place = .directive := by
    rw [place, hheader]
    rfl
  have hcursor := (Cursor.advance_zero m.cursor).symm
  unfold addImport
  cases target : Import.target env.root directive with
  | error h =>
    rw [Reader.addImport_of_error env _ _ s target]
    exact ⟨hopen, (Yield.append_empty _).symm, rfl, hcursor, rfl⟩
  | ok path =>
    by_cases isOpen : path ∈ opened
    · rw [Reader.addImport_of_mem env opened _ s target isOpen]
      simp only [if_pos isOpen]
      exact ⟨hopen, (Yield.append_empty _).symm, rfl, hcursor, rfl⟩
    · rw [Reader.addImport_of_notMem env opened _ s target isOpen]
      simp only [if_neg isOpen, hplace]
      cases env.library.fetch path with
      | error fault => exact ⟨hopen, rfl, rfl, hcursor, rfl⟩
      | ok source =>
        simp only [Reader.takeOver]
        cases (nested path source).halt with
        | some h =>
          refine ⟨hopen, ?_, rfl, hcursor, rfl⟩
          rw [← Yield.append_assoc, ReaderState.depth, hs]
          rfl
        | none =>
          refine ⟨?_, ?_, halt, hcursor, rfl⟩
          · rw [ReaderState.seek, hs]
            exact state_seeking rfl hword
          · rw [← Yield.append_assoc, ReaderState.depth, hs]
            rfl

/-- What a complete header leaves of the registers. A directive that makes the machine halt stays
open. -/
theorem complete_keeps (hm : m.Consistent) (halt : m.halt = none)
    (hheader : m.header = some place) :
    let m' := m.complete env opened nested place
    m'.buffer = [] ∧ m'.word = m.word ∧
      (m'.halt = none ∧ m'.header = place.next? ∨ m'.halt ≠ none ∧ m'.header = m.header) := by
  cases place with
  | title | labelId | labelContent | blockId => exact ⟨rfl, rfl, .inl ⟨halt, rfl⟩⟩
  | directive =>
    obtain ⟨header, yield, halt', hkeeps, hcase⟩ :=
      addImport_keeps env opened nested { m with buffer := [] } halt m.buffer
    have hcomplete : m.complete env opened nested .directive =
        { m with buffer := [], header, yield, halt := halt' } := hkeeps
    rw [hcomplete]
    exact ⟨rfl, rfl, hcase⟩
  | top | inSection | blockBody => exact absurd rfl (hm.stop _ hheader)

theorem consistent_complete (hm : m.Consistent) (halt : m.halt = none)
    (hheader : m.header = some place) : (m.complete env opened nested place).Consistent := by
  obtain ⟨hbuffer, hword, hcase⟩ := complete_keeps env opened nested hm halt hheader
  have hnil : m.word = [] := hm.word (by rw [hheader]; exact Option.some_ne_none _)
  refine consistent_of_nil ?_ (hword.trans hnil) hbuffer
  rcases hcase with ⟨-, hcase⟩ | ⟨-, hcase⟩ <;> rw [hcase]
  · intro next hnext
    cases place <;> cases hnext
    exact Option.some_ne_none _
  · exact hm.stop

/-- **A header is completed as the reader completes it.** -/
theorem took_complete (hm : m.Consistent) (halt : m.halt = none)
    (hheader : m.header = some place) {header : Header}
    (hplace : place.header? m.labelId = some header) :
    Took m (m.complete env opened nested place)
      (Reader.complete env opened nested m.state header m.buffer m.cursor.remaining) := by
  have hword : m.word = [] := hm.word (by rw [hheader]; exact Option.some_ne_none _)
  have hcursor := (Cursor.advance_zero m.cursor).symm
  cases place with
  | title =>
    cases hplace
    exact ⟨state_seeking rfl hword, rfl, halt, hcursor, rfl⟩
  | labelId =>
    cases hplace
    exact ⟨state_filling rfl rfl rfl, (Yield.append_empty _).symm, halt, hcursor, rfl⟩
  | labelContent =>
    cases hplace
    exact ⟨state_seeking rfl hword, rfl, halt, hcursor, rfl⟩
  | blockId =>
    cases hplace
    exact ⟨state_seeking rfl hword, rfl, halt, rfl, rfl⟩
  | directive =>
    cases hplace
    have hopen : ({ m with buffer := [] } : Machine).header = some .directive := hheader
    have htook := took_addImport env opened nested hopen hword rfl halt (s := m.state) rfl m.buffer
    exact ⟨htook.state, htook.yield, htook.halt, htook.cursor, htook.loop⟩
  | top | inSection | blockBody => cases hplace

end Machine

end Vitae
