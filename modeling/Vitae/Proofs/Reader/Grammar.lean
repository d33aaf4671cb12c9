import Vitae.Proofs.Outline.Forest
import Vitae.Proofs.Reader.Statement

/-!
# The grammar of documents

A document is a scope: a row of statements in which a heading opens an inner scope, up to the `end`
that matches it or the end of the document. `Grammar.scope` reads a scope off the remaining text by
recursion and builds its nodes directly; `Grammar.document` does so for a whole document and, level
by level, for the documents it imports.

* `Grammar.course_scope` follows the reader through a scope: its rows are the rows of the nodes, and
  then it goes on behind the scope with one section less. The open sections are the spine of the
  tree under construction, so a row at their depth is a child of the innermost one.
* `Grammar.read_eq_document` is the agreement of the character machine with the grammar.
-/

namespace Vitae

open Text Reader Outline

/-- A scope at the start of a text: its nodes, what follows the `end` that closes it, and what made
the reading halt within it, if anything did. -/
structure Scope (t : Text) where
  nodes : List Node
  rest : Text
  halt : Option Halt
  rest_le : rest.length ≤ t.length

namespace Scope

/-- The scope of a longer text, with nodes in front. -/
def prepend {t u : Text} (ns : List Node) (s : Scope u) (h : u.length < t.length) : Scope t :=
  ⟨ns ++ s.nodes, s.rest, s.halt, s.rest_le.trans h.le⟩

end Scope

namespace Grammar

/-- The nodes of a label, of a block of prose and of a section. -/
def labelNode (env : Settings) (id content : Text) : Node :=
  .mk Node.labelKind (.label (literal env id) (literal env content)) []

@[inherit_doc labelNode] def blockNode (env : Settings) (id body : Text) : Node :=
  .mk Node.blockKind (.block (literal env id) (trim body) (env.render (trimEnd body))) []

@[inherit_doc labelNode] def sectionNode (title : Text) (children : List Node) : Node :=
  .mk Node.sectionKind (.text title) children

variable (env : Settings) (opened : List Text)

section Scopes

variable (nested : Text → Text → List Node × Option Halt)

/-- The nodes that an import contributes, and what makes the reading halt at it. Of a document that
halts nothing is taken. -/
def included (directive : Text) : List Node × Option Halt :=
  match Import.resolve env.root env.library opened directive with
  | .error h => ([], some h)
  | .ok (path, source) =>
    match nested path source with
    | (_, some h) => ([], some h)
    | (ns, none) => (ns, none)

/-- The scope at the start of a text. Within a section an `end` closes it; elsewhere an `end` means
nothing. -/
def scope (inSection : Bool) (t : Text) : Scope t :=
  match hst : statement? t with
  | none => ⟨[], [], none, Nat.zero_le _⟩
  | some (st, rest) =>
    have hlt : rest.length < t.length := length_of_statement? hst
    match st with
    | .heading title =>
      let inner := scope true rest
      have hinner : inner.rest.length < t.length := inner.rest_le.trans_lt hlt
      match inner.halt with
      | some h => ⟨[sectionNode title inner.nodes], [], some h, Nat.zero_le _⟩
      | none => (scope inSection inner.rest).prepend [sectionNode title inner.nodes] hinner
    | .label id content => (scope inSection rest).prepend [labelNode env id content] hlt
    | .block id body _ => (scope inSection rest).prepend [blockNode env id body] hlt
    | .inclusion directive =>
      match included env opened nested directive with
      | (ns, some h) => ⟨ns, [], some h, Nat.zero_le _⟩
      | (ns, none) => (scope inSection rest).prepend ns hlt
    | .close =>
      if inSection then ⟨[], rest, none, hlt.le⟩ else (scope inSection rest).prepend [] hlt
    | .idle => (scope inSection rest).prepend [] hlt
termination_by t.length

end Scopes

/-- A whole document, with imports nested up to a number of levels: its nodes, and what made the
reading halt. A refused import ends a document; it is an error for a strict reader only. -/
def document : Nat → List Text → Text → List Node × Option Halt
  | 0, _, _ => ([], some .tooDeep)
  | levels + 1, opened, source =>
    let s := scope env opened (fun path source => document levels (path :: opened) source) false
      source
    (s.nodes,
      match s.halt with
      | some (.refused refusal) => if env.strict then some (.refused refusal) else none
      | halt => halt)

/-! ### The machine follows the grammar -/

variable (nested : Text → Text → Reading) (nested' : Text → Text → List Node × Option Halt)

/-- Two ways to read nested documents that give the same nodes and halt in the same way. -/
def SameNested : Prop :=
  ∀ path source, (nested path source).yield.rows = rowsOfAll 0 (nested' path source).1 ∧
    (nested path source).halt = (nested' path source).2

/-- A reading gives a scope within sections with these titles, and goes on behind the scope with the
innermost section closed. -/
def Follows (titles : List Text) {t : Text} (s : Scope t) (r : Reading) : Prop :=
  match s.halt with
  | some h => r.yield.rows = rowsOfAll titles.length s.nodes ∧ r.halt = some h
  | none =>
    let outside := course env opened nested ⟨.seeking [], titles.dropLast⟩ s.rest
    r.yield.rows = rowsOfAll titles.length s.nodes ++ outside.yield.rows ∧ r.halt = outside.halt

variable {nested nested'}

section

variable {env opened}

theorem Follows.prepend {titles : List Text} {t u : Text} {s : Scope u} {r : Reading}
    (hr : Follows env opened nested titles s r) (ns : List Node) {y : Yield}
    (hy : y.rows = rowsOfAll titles.length ns) (hlt : u.length < t.length) :
    Follows env opened nested titles (s.prepend (t := t) ns hlt) (r.after y) := by
  unfold Follows Scope.prepend at *
  cases hs : s.halt with
  | some h =>
    simp only [hs] at hr ⊢
    simp only [Reading.yield_after, Yield.rows_append, Reading.halt_after, hr, hy,
      rowsOfAll_append, and_self]
  | none =>
    simp only [hs] at hr ⊢
    simp only [Reading.yield_after, Yield.rows_append, Reading.halt_after, hr, hy,
      rowsOfAll_append, List.append_assoc, and_self]

theorem Follows.congr {titles : List Text} {t : Text} {s : Scope t} {r r' : Reading}
    (hr : Follows env opened nested titles s r) (hrows : r'.yield.rows = r.yield.rows)
    (hhalt : r'.halt = r.halt) : Follows env opened nested titles s r' := by
  unfold Follows at *
  rwa [hrows, hhalt]

end

theorem rowsOfAll_sectionNode (d : Nat) (title : Text) (ns : List Node) :
    rowsOfAll d [sectionNode title ns] =
      ⟨d, Node.sectionKind, .text title⟩ :: rowsOfAll (d + 1) ns := by
  rw [rowsOfAll_singleton, sectionNode, rowsOf]

theorem addImport_included (hn : SameNested nested nested') (titles : List Text)
    (directive : Text) :
    let o := addImport env opened nested ⟨.seeking [], titles⟩ directive
    o.yield.rows = rowsOfAll titles.length (included env opened nested' directive).1 ∧
      o.halt = (included env opened nested' directive).2 ∧
      (o.halt = none → o.state = ⟨.seeking [], titles⟩) := by
  obtain ⟨o, ho, hcase⟩ := addImport_cases env opened nested ⟨.seeking [], titles⟩ directive
  simp only [ho]
  unfold included
  cases hcase with
  | noTarget h target =>
    rw [Import.resolve_of_error target]
    refine ⟨rfl, rfl, ?_⟩
    rintro ⟨⟩
  | cycle path target isOpen =>
    rw [Import.resolve_of_mem target isOpen]
    refine ⟨rfl, rfl, ?_⟩
    rintro ⟨⟩
  | unreadable path fault target notOpen fetch =>
    rw [Import.resolve_of_notMem target notOpen, fetch]
    refine ⟨rfl, rfl, ?_⟩
    rintro ⟨⟩
  | halted path source h target notOpen fetch halt =>
    have hhalt := (hn path source).2
    rw [Import.resolve_of_notMem target notOpen, fetch]
    dsimp only
    generalize nested' path source = inner at hhalt
    obtain ⟨ns, halt'⟩ := inner
    obtain rfl : some h = halt' := halt.symm.trans hhalt
    refine ⟨rfl, rfl, ?_⟩
    rintro ⟨⟩
  | read path source target notOpen fetch halt =>
    obtain ⟨hrows, hhalt⟩ := hn path source
    rw [Import.resolve_of_notMem target notOpen, fetch]
    dsimp only
    generalize nested' path source = inner at hrows hhalt
    obtain ⟨ns, halt'⟩ := inner
    obtain rfl : none = halt' := halt.symm.trans hhalt
    refine ⟨?_, rfl, fun _ => rfl⟩
    change ((nested path source).yield.rows).shift titles.length = rowsOfAll titles.length ns
    rw [hrows, shift_rowsOfAll, Nat.zero_add]

/-- **A course follows the scope it starts in**, and goes on behind it with one section less. -/
theorem course_scope (hn : SameNested nested nested') (n : Nat) : ∀ (t : Text), t.length < n →
    ∀ (titles : List Text) (inSection : Bool), (inSection = false → titles = []) →
      Follows env opened nested titles (scope env opened nested' inSection t)
        (course env opened nested ⟨.seeking [], titles⟩ t) := by
  -- induction on the length: what follows an inner scope is only known to be shorter
  induction n with
  | zero => exact fun t ht => absurd ht (Nat.not_lt_zero _)
  | succ n ih =>
    intro t ht titles inSection htop
    rw [scope]
    split
    · rename_i hst
      obtain ⟨word, hcourse⟩ := course_of_no_statement env opened nested titles hst
      simp only [Follows, hcourse, course_seeking_nil]
      exact ⟨rfl, trivial⟩
    · rename_i st rest hst
      have hlt := length_of_statement? hst
      have hrest := ih rest (by omega) titles inSection htop
      rw [course_of_statement env opened nested titles hst]
      cases st with
      | heading title =>
        have hinner := ih rest (by omega) (titles ++ [title]) true (by rintro ⟨⟩)
        have hle := (scope env opened nested' true rest).rest_le
        have houtside := ih (scope env opened nested' true rest).rest (by omega) titles inSection
          htop
        have hlength : (titles ++ [title]).length = titles.length + 1 := by simp
        -- the inner course goes on behind the `end`, where `houtside` takes it up:
        unfold Follows at hinner
        simp only
        split
        · rename_i h hhalt
          simp only [hhalt, hlength] at hinner
          refine ⟨?_, hinner.2⟩
          rw [rowsOfAll_sectionNode, ← hinner.1]
          rfl
        · rename_i hhalt
          simp only [hhalt, hlength, List.dropLast_concat] at hinner
          let ns := [sectionNode title (scope env opened nested' true rest).nodes]
          have hnode := houtside.prepend (t := t) ns
            (y := ⟨rowsOfAll titles.length ns, [], []⟩) rfl (by omega)
          refine hnode.congr ?_ hinner.2
          rw [Reading.yield_after, Yield.rows_append, rowsOfAll_sectionNode, List.cons_append,
            ← hinner.1]
          rfl
      | label id content =>
        exact hrest.prepend [labelNode env id content]
          (by rw [rowsOfAll_singleton, labelNode, rowsOf_leaf]; rfl) hlt
      | block id body closed =>
        exact hrest.prepend [blockNode env id body]
          (by rw [rowsOfAll_singleton, blockNode, rowsOf_leaf]; rfl) hlt
      | inclusion directive =>
        obtain ⟨hrows, hhalt, hstate⟩ := addImport_included env opened hn titles directive
        simp only
        split
        · rename_i ns h hincluded
          rw [hincluded] at hrows hhalt
          simp only [perform, resume, hhalt]
          exact ⟨hrows, rfl⟩
        · rename_i ns hincluded
          rw [hincluded] at hrows hhalt
          simp only [perform, resume, hhalt, hstate hhalt]
          exact hrest.prepend ns hrows hlt
      | close =>
        simp only
        split_ifs with hin
        · exact ⟨rfl, rfl⟩
        · obtain rfl := htop (by simpa using hin)
          exact hrest.prepend [] rfl hlt
      | idle => exact hrest.prepend [] rfl hlt

theorem rest_scope_top (nested' : Text → Text → List Node × Option Halt) (n : Nat) :
    ∀ (t : Text), t.length < n → (scope env opened nested' false t).rest = [] := by
  induction n with
  | zero => exact fun t ht => absurd ht (Nat.not_lt_zero _)
  | succ n ih =>
    intro t ht
    rw [scope]
    split
    · rfl
    · rename_i st rest hst
      have hlt := length_of_statement? hst
      cases st with
      | heading title =>
        simp only
        split
        · rfl
        · have hle := (scope env opened nested' true rest).rest_le
          exact ih (scope env opened nested' true rest).rest (by omega)
      | inclusion directive =>
        simp only
        split
        · rfl
        · exact ih rest (by omega)
      | label | block | close | idle => exact ih rest (by omega)

/-- At the top of a document the course gives exactly the scope. -/
theorem course_top (hn : SameNested nested nested') (source : Text) :
    (course env opened nested .initial source).yield.rows =
        rowsOfAll 0 (scope env opened nested' false source).nodes ∧
      (course env opened nested .initial source).halt =
        (scope env opened nested' false source).halt := by
  have hfollows := course_scope env opened hn (source.length + 1) source
    (Nat.lt_succ_self _) [] false (fun _ => rfl)
  unfold Follows at hfollows
  cases hhalt : (scope env opened nested' false source).halt with
  | some h =>
    simp only [hhalt] at hfollows
    exact hfollows
  | none =>
    have hrest := rest_scope_top env opened nested'
      (source.length + 1) source (Nat.lt_succ_self _)
    simp only [hhalt, hrest, course_seeking_nil] at hfollows
    refine ⟨hfollows.1.trans ?_, hfollows.2⟩
    exact List.append_nil _

theorem rows_tolerate (env : Settings) (r : Reading) :
    (tolerate env r).yield.rows = r.yield.rows := by
  unfold tolerate
  split
  · split_ifs
    · rfl
    · exact List.append_nil _
  · rfl

theorem halt_tolerate (env : Settings) (r : Reading) :
    (tolerate env r).halt = match r.halt with
      | some (.refused refusal) => if env.strict then some (.refused refusal) else none
      | halt => halt := by
  obtain ⟨yield, state, position, halt⟩ := r
  cases halt with
  | none => rfl
  | some h =>
    cases h with
    | refused refusal =>
      unfold tolerate
      dsimp only
      split_ifs <;> rfl
    | badRoot fault => rfl
    | tooDeep => rfl

theorem readWithin_document (env : Settings) (levels : Nat) :
    ∀ (opened : List Text) (source : Text), (readWithin env levels opened source).yield.rows =
        rowsOfAll 0 (document env levels opened source).1 ∧
      (readWithin env levels opened source).halt = (document env levels opened source).2 := by
  induction levels with
  | zero => exact fun _ _ => ⟨rfl, rfl⟩
  | succ levels ih =>
    intro opened source
    have hn : SameNested (fun path source => readWithin env levels (path :: opened) source)
        (fun path source => document env levels (path :: opened) source) :=
      fun path source => ih (path :: opened) source
    obtain ⟨hrows, hhalt⟩ := course_top env opened hn source
    rw [readWithin, rows_tolerate, halt_tolerate, document]
    change (run env opened _ 0 .initial source).yield.rows = _ at hrows
    change (run env opened _ 0 .initial source).halt = _ at hhalt
    rw [hrows, hhalt]
    exact ⟨rfl, rfl⟩

theorem tree_read (env : Settings) (opened : List Text) (source : Text) :
    (env.read opened source).tree = (document env (env.library.nesting + 1) opened source).1 := by
  have hrows := (readWithin_document env (env.library.nesting + 1) opened source).1
  rw [Reading.tree, Settings.read, hrows, forest_rowsOfAll]

/-- The outline of a document is that of its tree. -/
theorem rows_read (env : Settings) (opened : List Text) (source : Text) :
    (env.read opened source).yield.rows = rowsOfAll 0 (env.read opened source).tree := by
  rw [tree_read]
  exact (readWithin_document env (env.library.nesting + 1) opened source).1

theorem rows_read_course (env : Settings) (opened : List Text) (source : Text) :
    rowsOfAll 0 (env.read opened source).tree =
      (course env opened (importing env opened) .initial source).yield.rows := by
  have hread := congrArg (fun r => r.yield.rows) (read_unplaced env opened source)
  rw [← rows_read]
  exact hread.trans (rows_tolerate env _)

/-- **The reader gives the tree of the grammar**, and halts where the grammar does. -/
theorem read_eq_document (env : Settings) (opened : List Text) (source : Text) :
    ((env.read opened source).tree, (env.read opened source).halt) =
      document env (env.library.nesting + 1) opened source :=
  Prod.ext (tree_read env opened source)
    (readWithin_document env (env.library.nesting + 1) opened source).2

end Grammar

end Vitae
