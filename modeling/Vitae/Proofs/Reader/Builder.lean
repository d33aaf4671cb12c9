import Mathlib.Logic.Relation
import Vitae.Proofs.Reader.Course
import Vitae.Proofs.Workbench.Tree

/-!
# Reading onto a workbench

`Reader.run` gives the rows of a tree. Here the same reading makes the tree itself, item by item. A
`Builder` reads one document: besides its state and what it has yielded it has the root item of its
tree and the stack of its open sections, and it attaches what it makes at its pointer, the last item
of the stack. An import sets up another builder with a root of its own, while the builder of the
importing document waits. When the inner builder stops, its nodes are attached to the pointer of the
waiting one, and its root is left behind; or the waiting builder halts as well.

A `Site` is the workbench with the builders at work. `Site.next` is its next step, at most one
character long. A call of the library or the renderer is made in the course of a step, before
anything comes onto the workbench.

* `Site.next_of_stopped` : when a builder has stopped, it hands over what it has made.
* `Site.eventsOnce_next` : in a step the innermost builder makes one call at most. From outside, the
  calls of inner builders show as made in the directive of an import (`Site.events`).
-/

namespace Vitae

open Text

/-- A document that is being read onto a workbench. -/
structure Builder where
  /-- The documents that are being read. -/
  opened : List Text
  /-- How deep imports may be nested in this document. -/
  levels : Nat
  state : ReaderState
  /-- The characters that are still to be read. -/
  rest : Text
  yield : Yield
  halt : Option Halt
  /-- The root item of the tree. -/
  root : Nat
  /-- The items of the open sections from the outside in. -/
  stack : List Nat

namespace Builder

/-- The builder of a document before its first character. -/
def start (levels : Nat) (opened : List Text) (source : Text) (root : Nat) : Builder where
  opened
  levels := levels - 1
  state := .initial
  rest := source
  yield := .empty
  halt := if levels = 0 then some .tooDeep else none
  root
  stack := []

/-- The item that nodes are attached to. -/
def pointer (b : Builder) : Nat :=
  b.stack.getLastD b.root

/-- The builder after an outcome, with what followed in the document. -/
def after (b : Builder) (o : Outcome) (rest : Text) : Builder :=
  { b with
    state := o.state
    rest := rest.drop o.used
    yield := b.yield ++ o.yield
    halt := o.halt }

/-- The builder while the document of a directive is being read. -/
def waiting (b : Builder) (rest : Text) : Builder :=
  { b with state := b.state.fill .directive, rest }

/-- What has been read. -/
def soFar (b : Builder) : Reading :=
  ⟨b.yield, b.state, 0, b.halt⟩

/-- The calls that have been made for the document. -/
def calls (b : Builder) : List Call :=
  b.yield.events.map Event.call

/-- The document has come to its end, or something has made the builder halt. -/
def Stopped (b : Builder) : Prop :=
  b.halt ≠ none ∨ (∃ word, b.state.phase = .seeking word) ∧ b.rest = []

end Builder

/-- A workbench and the builders at work: the innermost one, and those that wait for it, from the
inside out. -/
structure Site where
  bench : Workbench
  inner : Builder
  outer : List Builder

namespace Site

/-- All builders. -/
def builders (x : Site) : List Builder :=
  x.inner :: x.outer

/-- The calls that have been made. -/
def calls (x : Site) : List Call :=
  x.builders.reverse.flatMap Builder.calls

/-- The site before the first character of a document. -/
def start (levels : Nat) (opened : List Text) (source : Text) : Site where
  bench := .empty
  inner := .start levels opened source 0
  outer := []

/-- Whether a character completes the word `end`. -/
def closes (word : Text) (c : Char) : Bool :=
  !isBlank c && word ++ [c] = "end".toList

/-- The site after an outcome that is no import: the nodes that it yields are attached. -/
def take (x : Site) (o : Outcome) (rest : Text) : Site :=
  { x with
    bench := o.yield.rows.foldl (fun w r => w.put x.inner.pointer r.kind r.value) x.bench
    inner := x.inner.after o rest }

/-- A character between constructs. The word `end` closes the innermost section. -/
def seek (x : Site) (word : Text) (c : Char) (rest : Text) : Site :=
  let x' := x.take (.moved (Reader.collect x.inner.state word c)) rest
  if closes word c then { x' with inner.stack := x.inner.stack.dropLast } else x'

variable (env : Settings)

/-- An import. If there is a document to read, another builder is set up for it. -/
def enter (x : Site) (directive rest : Text) : Site :=
  let b := x.inner.waiting rest
  match Import.target env.root directive with
  | .error h => { x with inner := { b with halt := some h } }
  | .ok path =>
    if path ∈ b.opened then { x with inner := { b with halt := some (.refused (.cycle path)) } }
    else
      let b := { b with yield := b.yield ++ Reader.asked env path }
      match env.library.fetch path with
      | .error fault =>
        { x with inner := { b with halt := some (.refused (.unreadable path fault)) } }
      | .ok source =>
        { bench := x.bench.lay Workbench.rootNode
          inner := .start b.levels (path :: b.opened) source x.bench.items.size
          outer := b :: x.outer }

/-- A complete header, and what follows it in the document. A section is opened as soon as it is
attached. -/
def complete (x : Site) (header : Header) (t rest : Text) : Site :=
  let s := x.inner.state
  match header with
  | .title =>
    let x' := x.take (Reader.openSection s (trim t)) rest
    { x' with inner.stack := x.inner.stack ++ [x.bench.nextItem (.text (trim t))] }
  | .labelId => x.take (.moved (s.fill (.labelContent t))) rest
  | .labelContent id => x.take (Reader.addLabel env s id t) rest
  | .blockId => x.take (Reader.addBlock env s t rest) rest
  | .directive => x.enter env t rest

/-- The innermost builder has stopped. What it has made is attached to the pointer of the next one,
unless there is a reason to halt for that one too. -/
def leave (x : Site) : Option Site :=
  match x.outer with
  | [] => none
  | b :: outer =>
    let r := Reader.tolerate env x.inner.soFar
    match r.halt with
    | none => some
      { bench := x.bench.links b.pointer (x.bench.attachedTo x.inner.root)
        inner :=
          { b with
            state := b.state.seek
            yield := b.yield ++ r.yield.imported b.state.depth
            halt := none }
        outer }
    | some h => some
      { bench := x.bench
        inner :=
          { b with
            yield := b.yield ++ (r.yield.imported b.state.depth).withoutRows
            halt := some h }
        outer }

/-- The next step, if there is one: a character, the completion of a header at the end of the
document, or the return from an import. -/
def next (x : Site) : Option Site :=
  match x.inner.halt, x.inner.state.phase, x.inner.rest with
  | some _, _, _ => x.leave env
  | none, .seeking _, [] => x.leave env
  | none, .seeking word, c :: rest => some (x.seek word c rest)
  | none, .filling header buffer, [] => some (x.complete env header buffer [])
  | none, .filling header buffer, c :: rest =>
    some (if c = header.stop then x.complete env header buffer rest
      else x.take (.moved { x.inner.state with phase := .filling header (buffer ++ [c]) }) rest)

/-- The site comes to another site by some steps. -/
def Goes (x x' : Site) : Prop :=
  Relation.ReflTransGen (fun x x' => x.next env = some x') x x'

/-- The site some steps later, if it can take as many. -/
def later : Nat → Site → Option Site
  | 0, x => some x
  | n + 1, x => (x.next env).bind (later n)

variable {env} {x x' : Site}

theorem goes_of_later {n : Nat} (h : later env n x = some x') : x.Goes env x' := by
  induction n generalizing x with
  | zero =>
    cases h
    exact .refl
  | succ n ih =>
    obtain ⟨x₁, hnext, hlater⟩ := Option.bind_eq_some_iff.1 h
    exact .head hnext (ih hlater)

theorem Goes.trans {x'' : Site} (h : x.Goes env x') (h' : x'.Goes env x'') : x.Goes env x'' :=
  Relation.ReflTransGen.trans h h'

theorem goes_next (h : x.next env = some x') : x.Goes env x' :=
  Relation.ReflTransGen.single h

theorem next_of_stopped (h : x.inner.Stopped) : x.next env = x.leave env := by
  obtain halt | ⟨⟨word, phase⟩, rest⟩ := h
  · obtain ⟨h, halt⟩ := Option.ne_none_iff_exists'.1 halt
    rw [next, halt]
  · unfold next
    rw [phase, rest]
    cases x.inner.halt <;> rfl

/-! ### Calls -/

/-- Calls of an inner builder as they show from outside the builders that wait for it: each of these
stands in the directive of an import. -/
def seenFrom (events : List Event) : List Builder → List Event
  | [] => events
  | b :: outer =>
    seenFrom (b.yield.events ++ events.map fun e => { e with place := .directive }) outer

/-- The calls that have been made, with the places where the outermost builder stood. -/
def events (x : Site) : List Event :=
  seenFrom x.inner.yield.events x.outer

/-- A call of the innermost builder with the place where the outermost one stands. -/
def shown (x : Site) (e : Event) : Event :=
  if x.outer.isEmpty then e else { e with place := .directive }

/-- A call that the innermost builder makes in a step, and the place where it stands meanwhile. The
body of a block is read and rendered in the step that completes the identifier. -/
inductive Makes (x : Site) : Event → Prop
  | fetch (path : Text) (place : x.inner.state.place = .directive) :
    Makes x ⟨.fetch path, .directive⟩
  | render (body : Text) (place : x.inner.state.place = .blockId) :
    Makes x ⟨.render body, .blockBody⟩

/-- In the step from one site to another the innermost builder makes one call at most. -/
def EventsOnce (x x' : Site) : Prop :=
  x'.events = x.events ∨ ∃ e, x.Makes e ∧ x'.events = x.events ++ [x.shown e]

/-- In the step from one site to another one call is made at most. -/
def CallsOnce (x x' : Site) : Prop :=
  x'.calls = x.calls ∨ ∃ call, x'.calls = x.calls ++ [call]

theorem map_call_seenFrom (outer : List Builder) : ∀ events : List Event,
    (seenFrom events outer).map Event.call =
      outer.reverse.flatMap Builder.calls ++ events.map Event.call := by
  induction outer with
  | nil => exact fun _ => rfl
  | cons b outer ih =>
    intro events
    rw [seenFrom, ih, List.reverse_cons, List.flatMap_append, List.flatMap_singleton,
      List.append_assoc, List.map_append, List.map_map]
    rfl

theorem calls_eq (x : Site) : x.calls = x.events.map Event.call := by
  rw [events, map_call_seenFrom, calls, builders, List.reverse_cons, List.flatMap_append,
    List.flatMap_singleton]
  rfl

theorem seenFrom_append (outer : List Builder) : ∀ events events' : List Event,
    seenFrom (events ++ events') outer =
      seenFrom events outer ++
        if outer.isEmpty then events' else events'.map fun e => { e with place := .directive } := by
  induction outer with
  | nil => exact fun _ _ => rfl
  | cons b outer ih =>
    intro events events'
    rw [seenFrom, List.map_append, ← List.append_assoc, ih]
    cases outer with
    | nil => rfl
    | cons b' outer =>
      simp only [seenFrom, List.isEmpty_cons, Bool.false_eq_true, ↓reduceIte, List.map_map,
        Function.comp_def]

/-- The innermost builder has made a call. -/
theorem eventsOnce_of_call {e : Event} (hmakes : x.Makes e) (houter : x'.outer = x.outer)
    (hevents : x'.inner.yield.events = x.inner.yield.events ++ [e]) : x.EventsOnce x' := by
  refine .inr ⟨e, hmakes, ?_⟩
  rw [events, events, houter, hevents, seenFrom_append, shown]
  cases x.outer <;> rfl

theorem eventsOnce_of_eq (houter : x'.outer = x.outer)
    (hevents : x'.inner.yield.events = x.inner.yield.events) : x.EventsOnce x' := by
  refine .inl ?_
  rw [events, events, houter, hevents]

theorem eventsOnce_take {o : Outcome} (ho : o.yield.events = []) (rest : Text) :
    x.EventsOnce (x.take o rest) := by
  refine eventsOnce_of_eq rfl ?_
  change x.inner.yield.events ++ o.yield.events = _
  rw [ho, List.append_nil]

theorem eventsOnce_enter (hplace : x.inner.state.place = .directive) (directive rest : Text) :
    x.EventsOnce (x.enter env directive rest) := by
  unfold enter
  dsimp only
  cases Import.target env.root directive with
  | error fault => exact eventsOnce_of_eq rfl rfl
  | ok path =>
    simp only
    split_ifs
    · exact eventsOnce_of_eq rfl rfl
    · cases env.library.fetch path with
      | error fault => exact eventsOnce_of_call (.fetch path hplace) rfl rfl
      | ok source =>
        -- what the waiting builder has called for is seen as before the new builder was set up:
        have hwaiting : x.EventsOnce { x with inner := { x.inner.waiting rest with
            yield := x.inner.yield ++ Reader.asked env path } } :=
          eventsOnce_of_call (.fetch path hplace) rfl rfl
        rw [EventsOnce, events, events] at hwaiting ⊢
        simp only [seenFrom, Builder.start, Yield.empty, List.map_nil, List.append_nil]
        exact hwaiting

theorem eventsOnce_complete {header : Header} {buffer : Text}
    (phase : x.inner.state.phase = .filling header buffer) (t rest : Text) :
    x.EventsOnce (x.complete env header t rest) := by
  cases header with
  | title => exact eventsOnce_of_eq rfl (List.append_nil _)
  | labelId => exact eventsOnce_take rfl rest
  | labelContent id => exact eventsOnce_take rfl rest
  | blockId =>
    have hplace : x.inner.state.place = .blockId := by rw [ReaderState.place, phase]
    exact eventsOnce_of_call (.render _ hplace) rfl rfl
  | directive =>
    have hplace : x.inner.state.place = .directive := by rw [ReaderState.place, phase]
    exact eventsOnce_enter hplace t rest

theorem events_tolerate (env : Settings) (r : Reading) :
    (Reader.tolerate env r).yield.events = r.yield.events := by
  unfold Reader.tolerate
  split
  · split_ifs
    · rfl
    · exact List.append_nil _
  · rfl

theorem events_leave (h : x.leave env = some x') : x'.events = x.events := by
  obtain ⟨bench, inner, outer⟩ := x
  cases outer with
  | nil => cases h
  | cons b outer =>
    have hinner : (Reader.tolerate env inner.soFar).yield.events = inner.yield.events :=
      events_tolerate env _
    simp only [leave] at h
    split at h <;> cases h <;>
      simp [events, seenFrom, Yield.imported, Yield.withoutRows, hinner]

/-- **In a step the innermost builder makes one call at most**, in the directive of an import or for
the body of a block. -/
theorem eventsOnce_next (h : x.next env = some x') : x.EventsOnce x' := by
  unfold next at h
  split at h
  · exact .inl (events_leave h)
  · exact .inl (events_leave h)
  · cases h
    unfold seek
    dsimp only
    split_ifs
    · exact eventsOnce_of_eq rfl (List.append_nil _)
    · exact eventsOnce_take rfl _
  · rename_i phase _
    cases h
    exact eventsOnce_complete phase _ _
  · rename_i phase _
    cases h
    split_ifs
    · exact eventsOnce_complete phase _ _
    · exact eventsOnce_take rfl _

/-- **A step makes one call at most.** -/
theorem callsOnce_next (h : x.next env = some x') : x.CallsOnce x' := by
  unfold CallsOnce
  rw [calls_eq, calls_eq]
  rcases eventsOnce_next h with hsame | ⟨e, -, hevents⟩
  · exact .inl (congrArg _ hsame)
  · refine .inr ⟨e.call, ?_⟩
    have hcall : (x.shown e).call = e.call := by
      unfold shown
      split_ifs <;> rfl
    rw [hevents, List.map_append, List.map_singleton, hcall]

end Site

end Vitae
