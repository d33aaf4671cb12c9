import Vitae.Instant.Reading
import Vitae.Proofs.Reader.Following
import Vitae.Proofs.Reader.Grammar

/-!
# Trees under construction by a reader

While a document is read onto a workbench, every builder has a tree of its own in the making, the
innermost one and those that wait for an import. `Site.builders_in_order` says that all these trees
are in order (`Workbench.InOrder`) wherever the site comes to: after each character, where the
library or the renderer is called, after an import that has been taken over and after one that has
made the builders halt. In particular the nodes of an imported document have, once they are taken
over, their parents in the document that imports it.

The trees keep apart because the root of an inner builder is made after everything that belongs to
the builders that wait for it (`Builder.Keep`). This is kept by each step (`Site.advances_next`).
-/

namespace Vitae

open Text

/-- Each of the builders has a tree under construction. All its items are made before the root of
the builder within. -/
inductive Builder.Keep (w : Workbench) : Nat → List Builder → Prop
  | nil (top : Nat) : Keep w top []
  | cons {top : Nat} {b : Builder} {outer : List Builder} {walk : List Nat}
    (planted : w.Planted b.root b.stack b.yield.rows top walk)
    (depth : b.stack.length = b.state.depth) (next : Keep w b.root outer) :
    Keep w top (b :: outer)

namespace Builder.Keep

variable {w w' : Workbench} {top : Nat} {outer : List Builder}

theorem frame (h : Keep w top outer) (agree : ∀ j < top, w'.items[j]? = w.items[j]?) :
    Keep w' top outer ∧ ∀ b ∈ outer, w'.walk b.root = w.walk b.root := by
  induction h with
  | nil top => exact ⟨.nil top, List.forall_mem_nil _⟩
  | cons planted depth next ih =>
    have hroot := planted.bound _ List.mem_cons_self
    have hplanted := planted.frame agree
    obtain ⟨hnext, hwalks⟩ := ih fun j hj => agree j (hj.trans hroot)
    refine ⟨.cons hplanted depth hnext, List.forall_mem_cons.2 ⟨?_, hwalks⟩⟩
    rw [hplanted.walk_eq, planted.walk_eq]

theorem mono {top' : Nat} (h : Keep w top outer) (hle : top ≤ top') : Keep w top' outer := by
  cases h with
  | nil => exact .nil top'
  | cons planted depth next => exact .cons (planted.mono hle) depth next

theorem inOrder (h : Keep w top outer) (htop : top ≤ w.items.size) :
    ∀ b ∈ outer, ∃ walk, w.InOrder b.root b.stack walk b.yield.rows := by
  induction h with
  | nil top => exact List.forall_mem_nil _
  | cons planted depth next ih =>
    have hroot := planted.bound _ List.mem_cons_self
    exact List.forall_mem_cons.2 ⟨⟨_, planted.inOrder htop⟩, ih (by omega)⟩

end Builder.Keep

namespace Site

variable {env : Settings} {x x' : Site}

/-- All builders have their trees under construction on the workbench. -/
def Kept (x : Site) : Prop :=
  Builder.Keep x.bench x.bench.items.size x.builders

/-- A step to another site, in which the trees grow behind their last items. -/
def Advances (x x' : Site) : Prop :=
  x'.Kept ∧ ∀ b ∈ x'.builders, x.bench.walk b.root <+: x'.bench.walk b.root

/-! ### Steps of the innermost builder -/

theorem advances_of_planted {walk walk' : List Nat} (hwalk : walk <+: walk')
    (planted : x.bench.Planted x.inner.root x.inner.stack x.inner.yield.rows x.bench.items.size
      walk) (next : Builder.Keep x.bench x.inner.root x.outer) (houter : x'.outer = x.outer)
    (hroot : x'.inner.root = x.inner.root)
    (agree : ∀ j < x.inner.root, x'.bench.items[j]? = x.bench.items[j]?)
    (planted' : x'.bench.Planted x.inner.root x'.inner.stack x'.inner.yield.rows
      x'.bench.items.size walk')
    (depth : x'.inner.stack.length = x'.inner.state.depth) : x.Advances x' := by
  obtain ⟨hnext, hwalks⟩ := next.frame agree
  refine ⟨.cons (hroot ▸ planted') depth (by rw [hroot, houter]; exact hnext), ?_⟩
  rw [builders, houter, List.forall_mem_cons, hroot, planted.walk_eq, planted'.walk_eq]
  exact ⟨hwalk.map some, fun b hb => (hwalks b hb).symm ▸ List.prefix_rfl⟩

theorem advances_of_bench (h : x.Kept) (hbench : x'.bench = x.bench) (houter : x'.outer = x.outer)
    (hroot : x'.inner.root = x.inner.root) (hrows : x'.inner.yield.rows = x.inner.yield.rows)
    (hstack : x'.inner.stack = x.inner.stack ∧ x'.inner.state.opened = x.inner.state.opened ∨
      x'.inner.stack = x.inner.stack.dropLast ∧
        x'.inner.state.opened = x.inner.state.opened.dropLast) : x.Advances x' := by
  obtain @⟨⟩ | ⟨planted, depth, next⟩ := h
  refine advances_of_planted List.prefix_rfl planted next houter hroot ?_ ?_ ?_
  · rw [hbench]
    exact fun _ _ => rfl
  · rw [hbench, hrows]
    rcases hstack with ⟨hstack, -⟩ | ⟨hstack, -⟩ <;> rw [hstack]
    · exact planted
    · exact planted.closes
  · unfold ReaderState.depth at depth ⊢
    rcases hstack with ⟨hstack, hopened⟩ | ⟨hstack, hopened⟩ <;> rw [hstack, hopened]
    · exact depth
    · rw [List.length_dropLast, List.length_dropLast, depth]

/-- A single row is attached to the pointer, and trees that were begun before do not change. -/
theorem planted_take {o : Outcome} {kind : Text} {value : Value} {walk : List Nat}
    (planted : x.bench.Planted x.inner.root x.inner.stack x.inner.yield.rows x.bench.items.size
      walk) (depth : x.inner.stack.length = x.inner.state.depth)
    (hrow : o.yield.rows = [⟨x.inner.state.depth, kind, value⟩]) (rest : Text) :
    (x.take o rest).bench = x.bench.put x.inner.pointer kind value ∧
      (x.take o rest).bench.Planted x.inner.root x.inner.stack (x.take o rest).inner.yield.rows
        (x.take o rest).bench.items.size (walk ++ [x.bench.nextItem value]) ∧
      ∀ j < x.inner.root, (x.take o rest).bench.items[j]? = x.bench.items[j]? := by
  have hbench : (x.take o rest).bench = x.bench.put x.inner.pointer kind value := by
    rw [take, hrow]
    rfl
  have hrows : (x.take o rest).inner.yield.rows =
      x.inner.yield.rows ++ [⟨x.inner.stack.length, kind, value⟩] := by
    rw [depth, ← hrow]
    rfl
  rw [hbench, hrows]
  refine ⟨rfl, planted.put kind value, fun j hj => ?_⟩
  exact Workbench.items_put_of_ne (hj.trans planted.lt_size)
    (hj.trans_le planted.root_le_pointer).ne

theorem advances_take (h : x.Kept) {o : Outcome} {kind : Text} {value : Value}
    (hrow : o.yield.rows = [⟨x.inner.state.depth, kind, value⟩])
    (hopened : o.state.opened = x.inner.state.opened) (rest : Text) :
    x.Advances (x.take o rest) := by
  obtain @⟨⟩ | ⟨planted, depth, next⟩ := h
  obtain ⟨-, planted', agree⟩ := planted_take planted depth hrow rest
  refine advances_of_planted (List.prefix_append _ _) planted next rfl rfl agree planted' ?_
  exact depth.trans (congrArg List.length hopened.symm)

theorem advances_openSection (h : x.Kept) (title rest : Text) :
    x.Advances (x.complete env .title title rest) := by
  obtain @⟨⟩ | ⟨planted, depth, next⟩ := h
  have hrow : (Reader.openSection x.inner.state (trim title)).yield.rows =
    [⟨x.inner.state.depth, Node.sectionKind, .text (trim title)⟩] := rfl
  obtain ⟨hbench, planted', agree⟩ := planted_take planted depth hrow rest
  have hlast : (x.take (Reader.openSection x.inner.state (trim title)) rest).bench.LastSection
      x.inner.pointer (x.bench.nextItem (.text (trim title))) := by
    rw [hbench]
    exact Workbench.lastSection_put planted.pointer_lt
  refine advances_of_planted (List.prefix_append _ _) planted next rfl rfl agree
    (planted'.opens hlast) ?_
  change (x.inner.stack ++ [_]).length = (x.inner.state.opened ++ [trim title]).length
  rw [List.length_append, List.length_append, depth]
  rfl

theorem opened_dispatch (s : ReaderState) (keyword : Text) :
    (Reader.dispatch s keyword).opened =
      if keyword = "end".toList then s.opened.dropLast else s.opened := by
  unfold Reader.dispatch
  by_cases hend : keyword = "end".toList
  · subst hend
    rfl
  · rw [if_neg hend, if_neg hend]
    split <;> rfl

theorem opened_collect (s : ReaderState) (word : Text) (c : Char) :
    (Reader.collect s word c).opened = if closes word c then s.opened.dropLast else s.opened := by
  have hkeyword : "end".toList ∈ Reader.keywords := by decide
  unfold Reader.collect closes
  cases isBlank c with
  | true => rfl
  | false =>
    simp only [Bool.false_eq_true, ↓reduceIte, Bool.not_false, Bool.true_and, decide_eq_true_eq]
    by_cases hword : word ++ [c] ∈ Reader.keywords
    · rw [if_pos hword, opened_dispatch]
    · have hend : word ++ [c] ≠ "end".toList := fun heq => hword (heq ▸ hkeyword)
      rw [if_neg hword, if_neg hend]

theorem advances_seek (h : x.Kept) (word : Text) (c : Char) (rest : Text) :
    x.Advances (x.seek word c rest) := by
  have hopened := opened_collect x.inner.state word c
  unfold seek
  dsimp only
  split_ifs at hopened ⊢
  · exact advances_of_bench h rfl rfl rfl (List.append_nil _) (.inr ⟨rfl, hopened⟩)
  · exact advances_of_bench h rfl rfl rfl (List.append_nil _) (.inl ⟨rfl, hopened⟩)

/-! ### Imports -/

theorem advances_enter (h : x.Kept) (directive rest : Text) :
    x.Advances (x.enter env directive rest) := by
  unfold enter
  dsimp only
  cases Import.target env.root directive with
  | error fault => exact advances_of_bench h rfl rfl rfl rfl (.inl ⟨rfl, rfl⟩)
  | ok path =>
    simp only
    split_ifs
    · exact advances_of_bench h rfl rfl rfl rfl (.inl ⟨rfl, rfl⟩)
    · cases env.library.fetch path with
      | error fault =>
        exact advances_of_bench h rfl rfl rfl (List.append_nil _) (.inl ⟨rfl, rfl⟩)
      | ok source =>
        obtain @⟨⟩ | ⟨planted, depth, next⟩ := h
        -- the new root comes behind all that is there:
        have agree (j : Nat) (hj : j < x.bench.items.size) :
            (x.bench.lay Workbench.rootNode).items[j]? = x.bench.items[j]? := by
          rw [Workbench.items_lay, if_neg hj.ne]
        have hwaiting : Builder.Keep x.bench x.bench.items.size
            ({ x.inner.waiting rest with
              yield := x.inner.yield ++ Reader.asked env path } :: x.outer) := by
          rw [← List.append_nil x.inner.yield.rows] at planted
          exact .cons planted depth next
        obtain ⟨hkeep, hwalks⟩ := hwaiting.frame agree
        refine ⟨.cons (Workbench.planted_lay x.bench) rfl hkeep, List.forall_mem_cons.2 ⟨?_, ?_⟩⟩
        · change x.bench.walk x.bench.items.size <+: _
          rw [Workbench.walk_of_size_le le_rfl]
          exact List.nil_prefix
        · exact fun b hb => (hwalks b hb).symm ▸ List.prefix_rfl

theorem advances_leave (h : x.Kept) (hleave : x.leave env = some x') : x.Advances x' := by
  obtain ⟨bench, inner, outer⟩ := x
  cases outer with
  | nil => cases hleave
  | cons b outer =>
    obtain @⟨⟩ | @⟨_, _, _, walk', planted', _, next⟩ := h
    have hle : inner.root ≤ bench.items.size := planted'.lt_size.le
    -- the builder that goes on, before anything is taken over:
    have hkept : Kept ⟨bench, b, outer⟩ := next.mono hle
    change Advances ⟨bench, b, outer⟩ x'
    obtain @⟨⟩ | @⟨_, _, _, walk, planted, depth, next⟩ := next
    simp only [leave] at hleave
    split at hleave
    · cases hleave
      have htaken := planted.links planted' le_rfl
      have hadd := planted.addedAt_links planted' le_rfl
      have hrows : (Reader.tolerate env inner.soFar).yield.rows = inner.yield.rows :=
        Grammar.rows_tolerate env _
      rw [← hrows, depth, ← Workbench.size_links] at htaken
      refine advances_of_planted (List.prefix_append _ _) (planted.mono hle) next rfl rfl
        (fun j hj => hadd.kept j ?_ ?_) htaken depth
      · exact hj.trans (planted.bound _ List.mem_cons_self)
      · exact (hj.trans_le planted.root_le_pointer).ne
    · cases hleave
      exact advances_of_bench hkept rfl rfl rfl (List.append_nil _) (.inl ⟨rfl, rfl⟩)

/-! ### Sites in order -/

theorem advances_complete (h : x.Kept) (header : Header) (t rest : Text) :
    x.Advances (x.complete env header t rest) := by
  cases header with
  | title => exact advances_openSection h t rest
  | labelId => exact advances_of_bench h rfl rfl rfl (List.append_nil _) (.inl ⟨rfl, rfl⟩)
  | labelContent id => exact advances_take h rfl rfl rest
  | blockId => exact advances_take h rfl rfl rest
  | directive => exact advances_enter h t rest

/-- **With each step the trees stay under construction**, and they grow behind their last items. -/
theorem advances_next (h : x.Kept) (hnext : x.next env = some x') : x.Advances x' := by
  unfold next at hnext
  split at hnext
  · exact advances_leave h hnext
  · exact advances_leave h hnext
  · cases hnext
    exact advances_seek h _ _ _
  · cases hnext
    exact advances_complete h _ _ _
  · cases hnext
    split_ifs
    · exact advances_complete h _ _ _
    · exact advances_of_bench h rfl rfl rfl (List.append_nil _) (.inl ⟨rfl, rfl⟩)

theorem kept_start (levels : Nat) (opened : List Text) (source : Text) :
    (start levels opened source).Kept := by
  have hroot := Workbench.planted_lay ⟨#[]⟩
  exact .cons hroot rfl (.nil _)

theorem Goes.kept (h : x.Goes env x') (hx : x.Kept) : x'.Kept := by
  induction h with
  | refl => exact hx
  | tail _ hnext ih => exact (advances_next ih hnext).1

/-- **All trees under construction are in order wherever a site comes to.** A step lets them grow
behind their last items, and it makes one call at most, before anything grows. The site comes to
every point of the reading of the document, and at its end there is no other builder. -/
theorem builders_in_order (env : Settings) (levels : Nat) (opened : List Text) (source : Text) :
    let site := start (levels + 1) opened source
    (∀ x, site.Goes env x →
      (∀ b ∈ x.builders, ∃ walk, x.bench.InOrder b.root b.stack walk b.yield.rows) ∧
        ∀ x', x.next env = some x' →
          (∀ b ∈ x'.builders, x.bench.walk b.root <+: x'.bench.walk b.root) ∧ x.CallsOnce x') ∧
      (∀ y s t, Reader.Reaches env opened
          (fun path source => Reader.readWithin env levels (path :: opened) source) .initial source
          y s t →
        ∃ x, site.Goes env x ∧ x.outer = [] ∧ x.inner.soFar = ⟨y, s, 0, none⟩ ∧
          x.inner.rest = t) ∧
      ∃ x, site.Goes env x ∧ x.outer = [] ∧ x.next env = none ∧
        Reader.tolerate env x.inner.soFar =
          (Reader.readWithin env (levels + 1) opened source).unplaced := by
  intro site
  refine ⟨fun x hx => ?_, fun y s t hreaches => ?_, ?_⟩
  · have hkept : x.Kept := hx.kept (kept_start _ _ _)
    refine ⟨Builder.Keep.inOrder hkept le_rfl, fun x' hnext => ?_⟩
    exact ⟨(advances_next hkept hnext).2, callsOnce_next hnext⟩
  · exact goes_of_reaches (completes env levels) rfl rfl rfl hreaches
  · obtain ⟨x, hgoes, houter, hstopped, hread⟩ :=
      completes env (levels + 1) site opened source 0 rfl
    refine ⟨x, hgoes, houter, ?_, hread⟩
    rw [next_of_stopped hstopped, leave, houter]
    rfl

/-- A section, and in it the import of a document that is a label, at its end and one step later.
The label is item 3. It belongs to item 2, the root of its own document, and then to item 1, the
section. -/
theorem builders_in_order_import :
    let env := { Settings.standard (Instant.read? 2026) id with
      library := .ofList [("./x.resume".toList, "label k:v".toList)] }
    let site := start 2 [] "sectionA\n@import\"x\"".toList
    ∃ x x', site.Goes env x ∧ x.next env = some x' ∧ x.outer.length = 1 ∧ x'.outer.length = 0 ∧
      (∀ b ∈ x.builders, ∃ walk, x.bench.InOrder b.root b.stack walk b.yield.rows) ∧
      (∀ b ∈ x'.builders, x.bench.walk b.root <+: x'.bench.walk b.root) ∧
      x.bench.parentOf 3 = some 2 ∧ x'.bench.parentOf 3 = some 1 := by
  intro env site
  have hinside : (later env 30 site).map (fun x => (x.outer.length, x.bench.parentOf 3)) =
      some (1, some 2) := by decide +kernel
  have hreturned : ((later env 30 site).bind (next env)).map
      (fun x => (x.outer.length, x.bench.parentOf 3)) = some (0, some 1) := by decide +kernel
  obtain ⟨x, hlater, hx⟩ := Option.map_eq_some_iff.1 hinside
  obtain ⟨x', hlater', hx'⟩ := Option.map_eq_some_iff.1 hreturned
  have hnext : x.next env = some x' := by rwa [hlater] at hlater'
  have hgoes := goes_of_later hlater
  obtain ⟨htrees, hsteps⟩ := (builders_in_order env 1 [] "sectionA\n@import\"x\"".toList).1 x hgoes
  obtain ⟨houter, hparent⟩ := Prod.mk.inj hx
  obtain ⟨houter', hparent'⟩ := Prod.mk.inj hx'
  exact ⟨x, x', hgoes, hnext, houter, houter', htrees, (hsteps x' hnext).1, hparent, hparent'⟩

end Site

end Vitae
