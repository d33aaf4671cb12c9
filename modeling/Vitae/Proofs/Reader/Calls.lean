import Mathlib.Data.List.Forall2
import Vitae.Instant.Reading
import Vitae.Proofs.Outline.Forest
import Vitae.Proofs.Reader.Following
import Vitae.Proofs.Reader.Grammar
import Vitae.Proofs.Reader.Turns

/-!
# The calls of the renderer

Every block of prose is rendered once, when the reader comes to it, and what the renderer is given
and gives back stands in the node of the block. So the calls of the renderer, those for imported
documents included, match the blocks of the tree one by one, and their order is that of the tree
(`blocks_rendered_in_order`). This holds of every reading that does not halt: of a document that a
refusal has ended early, all blocks that have been rendered are in the tree as well.

* `Yield.Rendered` relates the calls of a stretch to its blocks. It is kept by a statement, and by
  an import unless the other document makes the reading halt (`Reader.rendered_addImport`).
* `Site.CalledAt` says where the outermost builder stands when a call is made. The machine computes
  the same places: it opens the body of a block, and notes each call with the place that it shows
  then (`Machine.readBlock`, `Machine.exists_ends`).
-/

namespace Vitae

open Text

/-! ### Blocks -/

/-- The blocks of a forest in the order of the tree. -/
def Node.blocks (ns : List Node) : List Value :=
  ((walkAll ns).filter (·.kind = blockKind)).map value

namespace Outline

/-- The blocks of an outline. -/
def blocks (rows : Outline) : List Value :=
  (rows.filter (·.kind = Node.blockKind)).map Row.value

@[simp] theorem blocks_append (a b : Outline) : blocks (a ++ b) = blocks a ++ blocks b := by
  simp [blocks]

@[simp] theorem blocks_shift (d : Nat) (rows : Outline) : blocks (rows.shift d) = blocks rows := by
  simp [blocks, shift, List.filter_map, Function.comp_def]

theorem blocks_singleton (r : Row) :
    blocks [r] = if r.kind = Node.blockKind then [r.value] else [] := by
  by_cases h : r.kind = Node.blockKind <;> simp [blocks, h]

mutual

theorem blocks_rowsOf (d : Nat) :
    ∀ n : Node, blocks (rowsOf d n) = (n.walk.filter (·.kind = Node.blockKind)).map Node.value
  | .mk kind value children => by
    have hchildren := blocks_rowsOfAll (d + 1) children
    rw [rowsOf, ← List.singleton_append, blocks_append, blocks_singleton, hchildren, Node.walk,
      List.filter_cons]
    by_cases h : kind = Node.blockKind <;> simp [h, Node.kind, Node.value, Node.blocks]

/-- The rows of a forest have its blocks. -/
theorem blocks_rowsOfAll (d : Nat) : ∀ ns : List Node, blocks (rowsOfAll d ns) = Node.blocks ns
  | [] => rfl
  | n :: ns => by
    rw [rowsOfAll, blocks_append, blocks_rowsOf d n, blocks_rowsOfAll d ns, Node.blocks,
      Node.blocks, Node.walkAll, List.filter_append, List.map_append]

end

end Outline

/-! ### Calls and blocks -/

/-- The text that the renderer is given, if it is called. -/
def Call.body? : Call → Option Text
  | .render body => some body
  | .fetch _ => none

/-- The texts that the renderer is given, in their order. -/
def Yield.bodies (y : Yield) : List Text :=
  y.events.filterMap fun e => e.call.body?

/-- The value of a block for which the renderer has been given a text. -/
def Value.Renders (env : Settings) (body : Text) (value : Value) : Prop :=
  ∃ id, value = .block id (trim body) (env.render body)

/-- The calls of the renderer match the blocks one by one. -/
def Yield.Rendered (env : Settings) (y : Yield) : Prop :=
  List.Forall₂ (Value.Renders env) y.bodies y.rows.blocks

namespace Yield

variable {env : Settings} {y z : Yield}

@[simp] theorem bodies_append (y z : Yield) : (y ++ z).bodies = y.bodies ++ z.bodies := by
  simp [bodies]

@[simp] theorem bodies_imported (d : Nat) (y : Yield) : (y.imported d).bodies = y.bodies := by
  simp [bodies, imported, List.filterMap_map]

theorem Rendered.append (hy : y.Rendered env) (hz : z.Rendered env) : (y ++ z).Rendered env := by
  unfold Rendered at *
  rw [bodies_append, rows_append, Outline.blocks_append]
  exact List.rel_append hy hz

theorem Rendered.imported (h : y.Rendered env) (d : Nat) : (y.imported d).Rendered env := by
  unfold Rendered at *
  rw [bodies_imported, Yield.imported, Outline.blocks_shift]
  exact h

/-- What neither calls the renderer nor has blocks. -/
theorem rendered_of_none (hbodies : y.bodies = []) (hblocks : y.rows.blocks = []) :
    y.Rendered env := by
  rw [Rendered, hbodies, hblocks]
  exact .nil

end Yield

namespace Reader

variable {env : Settings} {opened : List Text} {nested : Text → Text → Reading}

/-- What is left of a halt once a refusal has been dealt with. -/
def settle (env : Settings) : Option Halt → Option Halt
  | some (.refused refusal) => if env.strict then some (.refused refusal) else none
  | halt => halt

theorem halt_tolerate_eq (r : Reading) : (tolerate env r).halt = settle env r.halt := by
  rw [Grammar.halt_tolerate]
  cases r.halt with
  | none => rfl
  | some h => cases h <;> rfl

theorem settle_settle (halt : Option Halt) : settle env (settle env halt) = settle env halt := by
  match halt with
  | none => rfl
  | some (.refused refusal) => by_cases hstrict : env.strict = true <;> simp [settle, hstrict]
  | some (.badRoot fault) => rfl
  | some .tooDeep => rfl

variable (env) in
/-- A reading whose blocks have all been rendered, unless it halts for good. -/
structure RendersAll (r : Reading) : Prop where
  settled : settle env r.halt = r.halt
  rendered : r.halt = none → r.yield.Rendered env

theorem rendered_asked (path : Text) : (asked env path).Rendered env :=
  Yield.rendered_of_none rfl rfl

/-- **The blocks of an imported document are taken over with their order.** -/
theorem rendered_addImport (hn : ∀ path source, RendersAll env (nested path source))
    (s : ReaderState) (directive : Text)
    (halt : settle env (addImport env opened nested s directive).halt = none) :
    (addImport env opened nested s directive).yield.Rendered env := by
  obtain ⟨o, ho, hcase⟩ := addImport_cases env opened nested s directive
  rw [ho] at halt ⊢
  cases hcase with
  | noTarget h target => exact Yield.rendered_of_none rfl rfl
  | cycle path target isOpen => exact Yield.rendered_of_none rfl rfl
  | unreadable path fault target notOpen fetch => exact rendered_asked path
  | halted path source h target notOpen fetch hinner =>
    -- a halt that the imported document has not settled is not settled here either:
    have hsettled := (hn path source).settled
    rw [hinner] at hsettled
    cases hsettled.symm.trans halt
  | read path source target notOpen fetch hinner =>
    exact (rendered_asked path).append (((hn path source).rendered hinner).imported s.depth)

theorem rendered_perform (hn : ∀ path source, RendersAll env (nested path source))
    (titles : List Text) (st : Statement)
    (halt : settle env (perform env opened nested titles st).halt = none) :
    (perform env opened nested titles st).yield.Rendered env := by
  cases st with
  | heading title => exact Yield.rendered_of_none rfl rfl
  | label id content => exact Yield.rendered_of_none rfl rfl
  | block id body closed =>
    have hblock : Value.Renders env (trimEnd body)
        (.block (literal env id) (trim body) (env.render (trimEnd body))) :=
      ⟨_, by rw [trim_trimEnd]⟩
    exact .cons hblock .nil
  | inclusion directive => exact rendered_addImport hn _ directive halt
  | close => exact Yield.rendered_of_none rfl rfl
  | idle => exact Yield.rendered_of_none rfl rfl

/-- **Along a document the calls of the renderer match the blocks**, unless it halts for good. -/
theorem rendered_course (hn : ∀ path source, RendersAll env (nested path source)) (t : Text)
    (titles : List Text)
    (halt : settle env (course env opened nested ⟨.seeking [], titles⟩ t).halt = none) :
    (course env opened nested ⟨.seeking [], titles⟩ t).yield.Rendered env := by
  induction t using statement_induction generalizing titles with
  | none t hst =>
    obtain ⟨word, hcourse⟩ := course_of_no_statement env opened nested titles hst
    rw [hcourse]
    exact Yield.rendered_of_none rfl rfl
  | some t st rest hst ih =>
    have hperform := @rendered_perform env opened nested hn titles st
    have hseeks := perform_seeks env opened nested titles st
    rw [course_of_statement env opened nested titles hst] at halt ⊢
    cases hfirst : (perform env opened nested titles st).halt with
    | some h =>
      simp only [resume, hfirst] at halt ⊢
      rw [hfirst] at hperform
      exact hperform halt
    | none =>
      simp only [resume, hfirst] at halt ⊢
      rw [hseeks hfirst] at halt ⊢
      rw [hfirst] at hperform
      exact (hperform rfl).append (ih _ halt)

/-- Documents are read so, with the documents that they import. -/
theorem rendersAll_readWithin (levels : Nat) : ∀ (opened : List Text) (source : Text),
    RendersAll env (readWithin env levels opened source) := by
  induction levels with
  | zero =>
    intro opened source
    refine ⟨rfl, ?_⟩
    rintro ⟨⟩
  | succ levels ih =>
    intro opened source
    let nested (path source : Text) := readWithin env levels (path :: opened) source
    have hcourse : settle env (run env opened nested 0 .initial source).halt = none →
        (run env opened nested 0 .initial source).yield.Rendered env :=
      rendered_course (fun path source => ih (path :: opened) source) source []
    rw [readWithin]
    refine ⟨?_, fun halt => ?_⟩
    · rw [halt_tolerate_eq, settle_settle]
    · rw [halt_tolerate_eq] at halt
      have hrun := hcourse halt
      rwa [Yield.Rendered, Yield.bodies, Site.events_tolerate, Grammar.rows_tolerate]

end Reader

/-! ### Where calls are made -/

namespace Site

variable {env : Settings} {x x' : Site}

/-- The place where the outermost builder stands. -/
def place (x : Site) : Place :=
  (x.outer.getLastD x.inner).state.place

/-- A call in a step from a site, and where the outermost builder stands. For the library it stands
in the directive of an import, and so it does for the renderer, unless it has come to a block
itself. -/
inductive CalledAt (x : Site) : Event → Prop
  | fetch (path : Text) (place : x.place = .directive) : CalledAt x ⟨.fetch path, .directive⟩
  | inside (body : Text) (inside : x.outer ≠ []) (place : x.place = .directive) :
    CalledAt x ⟨.render body, .directive⟩
  | own (body : Text) (outermost : x.outer = []) (place : x.place = .blockId) :
    CalledAt x ⟨.render body, .blockBody⟩

/-- The builders that wait stand in directives. -/
def Waits (x : Site) : Prop :=
  ∀ b ∈ x.outer, b.state.place = .directive

theorem shown_of_outermost (h : x.outer = []) (e : Event) : x.shown e = e := by
  simp [shown, h]

theorem shown_of_inside (h : x.outer ≠ []) (e : Event) :
    x.shown e = { e with place := .directive } := by
  simp [shown, h]

theorem Waits.calledAt (h : x.Waits) {e : Event} (hmakes : x.Makes e) : x.CalledAt (x.shown e) := by
  by_cases houter : x.outer = []
  · have hplace : x.place = x.inner.state.place := by simp [place, houter]
    rw [shown_of_outermost houter]
    cases hmakes with
    | fetch path inner => exact .fetch path (hplace.trans inner)
    | render body inner => exact .own body houter (hplace.trans inner)
  · have hplace : x.place = .directive := by
      refine h _ ?_
      rw [List.getLastD_eq_getLast?, List.getLast?_eq_getLast_of_ne_nil houter]
      exact List.getLast_mem houter
    rw [shown_of_inside houter]
    cases hmakes with
    | fetch path => exact .fetch path hplace
    | render body => exact .inside body houter hplace

theorem waits_complete (h : x.Waits) (header : Header) (t rest : Text) :
    (x.complete env header t rest).Waits := by
  cases header with
  | directive =>
    simp only [complete, enter]
    cases Import.target env.root t with
    | error fault => exact h
    | ok path =>
      simp only
      split_ifs
      · exact h
      · cases env.library.fetch path with
        | error fault => exact h
        | ok source => exact List.forall_mem_cons.2 ⟨rfl, h⟩
  | title | labelId | labelContent id | blockId => exact h

theorem waits_leave (h : x.Waits) (hleave : x.leave env = some x') : x'.Waits := by
  obtain ⟨bench, inner, outer⟩ := x
  cases outer with
  | nil => cases hleave
  | cons b outer =>
    have houter : ∀ b ∈ outer, b.state.place = .directive := (List.forall_mem_cons.1 h).2
    simp only [leave] at hleave
    split at hleave <;> cases hleave <;> exact houter

/-- **Builders wait in directives.** This is kept by each step. -/
theorem waits_next (h : x.Waits) (hnext : x.next env = some x') : x'.Waits := by
  unfold next at hnext
  split at hnext
  · exact waits_leave h hnext
  · exact waits_leave h hnext
  · cases hnext
    unfold seek
    dsimp only
    split_ifs <;> exact h
  · cases hnext
    exact waits_complete h _ _ _
  · cases hnext
    split_ifs
    · exact waits_complete h _ _ _
    · exact h

theorem Goes.waits (h : x.Goes env x') (hx : x.Waits) : x'.Waits := by
  induction h with
  | refl => exact hx
  | tail _ hnext ih => exact waits_next ih hnext

end Site

/-- **Each block is rendered once, in the order of the document.** If the reading does not halt, the
calls of the renderer, those for imported documents included, match the blocks of the tree one by
one and in order: a block holds the text of its call, trimmed, and what the renderer has made of it.

The site of the reading comes to its end with the same calls, and makes them one by one. When the
library is called, the outermost builder stands in the directive of an import; when the renderer is
called, it does so too, or it is itself in the body of a block. The machine that reads the document
ends with the same calls as well, each noted with the place that the machine shows when it makes the
call. -/
theorem blocks_rendered_in_order (env : Settings) (opened : List Text) (source : Text) :
    let reading := env.read opened source
    let site := Site.start (env.library.nesting + 1) opened source
    (reading.halt = none →
        List.Forall₂ (fun body value => ∃ id, value = .block id (trim body) (env.render body))
          reading.yield.bodies (Node.blocks reading.tree)) ∧
      (∀ x, site.Goes env x → ∀ x', x.next env = some x' →
        x'.events = x.events ∨ ∃ e, x.CalledAt e ∧ x'.events = x.events ++ [e]) ∧
      site.events = [] ∧
      (∃ x, site.Goes env x ∧ x.next env = none ∧ x.events = reading.yield.events) ∧
      ∃ last, Machine.Ends env opened (Reader.importing env opened) (Machine.start source) last ∧
        last.yield.events = reading.yield.events := by
  intro reading site
  refine ⟨fun halt => ?_, fun x hgoes x' hnext => ?_, rfl, ?_, ?_⟩
  · have hrendered : reading.yield.Rendered env :=
      (Reader.rendersAll_readWithin (env.library.nesting + 1) opened source).rendered halt
    have hblocks : reading.yield.rows.blocks = Node.blocks reading.tree := by
      rw [Grammar.rows_read env opened source, Outline.blocks_rowsOfAll]
    rw [← hblocks]
    exact hrendered
  · have hwaits : x.Waits := hgoes.waits (List.forall_mem_nil _)
    rcases Site.eventsOnce_next hnext with hsame | ⟨e, hmakes, hevents⟩
    · exact .inl hsame
    · exact .inr ⟨x.shown e, hwaits.calledAt hmakes, hevents⟩
  · obtain ⟨x, hgoes, houter, hstopped, hread⟩ :=
      Site.completes env (env.library.nesting + 1) site opened source 0 rfl
    have hnone : x.outer = [] := houter
    refine ⟨x, hgoes, ?_, ?_⟩
    · rw [Site.next_of_stopped hstopped, Site.leave, hnone]
    · have hevents := congrArg (fun r => r.yield.events) hread
      rw [Site.events_tolerate] at hevents
      rw [Site.events, hnone]
      exact hevents
  · obtain ⟨last, hends, hread⟩ :=
      Machine.exists_ends env opened (Reader.importing env opened) source
    refine ⟨last, hends, ?_⟩
    have hevents : last.yield.events = _ := congrArg (fun r => r.yield.events) hread
    rw [hevents, ← Site.events_tolerate env]
    rfl

/-- A block, then the import of a document that a refused import ends early behind its own block. -/
theorem blocks_rendered_in_order_import :
    let env := { Settings.standard (Instant.read? 2026) id with
      library := .ofList [("./x.resume".toList, "text b: in\nend\n@import bad\n".toList)] }
    let reading := env.read [] "text a: hi\nend\n@import\"x\"\ntext c: out\nend\n".toList
    reading.halt = none ∧
      reading.yield.bodies = [" hi".toList, " in".toList, " out".toList] ∧
      List.Forall₂ (fun body value => ∃ id, value = .block id (trim body) body)
        reading.yield.bodies (Node.blocks reading.tree) := by
  intro env reading
  have halt : reading.halt = none := by decide +kernel
  have hbodies : reading.yield.bodies = [" hi".toList, " in".toList, " out".toList] := by
    decide +kernel
  exact ⟨halt, hbodies, (blocks_rendered_in_order env [] _).1 halt⟩

end Vitae
