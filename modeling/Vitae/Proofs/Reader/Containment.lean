import Vitae.Instant.Reading
import Vitae.Proofs.Outline.Insertion
import Vitae.Proofs.Reader.Ending
import Vitae.Proofs.Reader.Inlining

/-!
# What an import can do to the document around it

Whatever is wrong in an imported document, a tolerant reader makes of it some nodes, and these are
all that the importing document gets. `Reader.import_contained` compares a document with the same
document without the line of the import: the nodes of the other document are inserted in the
innermost section that is open at the line, and nothing else differs.

The open sections of the reader are those of the tree under construction. This is kept by every step
(`Reader.exists_openAt_step`), so it holds wherever the reader comes to (`Reader.exists_openAt`).
-/

namespace Vitae

open Outline

namespace Reader

variable {env : Settings} {opened : List Text} {nested : Text → Text → Reading}

/-! ### The tree under construction -/

theorem exists_openAt_complete {nested' : Text → Text → List Node × Option Halt}
    (hn : Grammar.SameNested nested nested') {s : ReaderState} {header : Header}
    {buffer rest : Text} {ns : List Node} (hopen : OpenAt s.opened ns)
    (halt : (complete env opened nested s header buffer rest).halt = none) :
    ∃ ns', rowsOfAll 0 ns' =
        rowsOfAll 0 ns ++ (complete env opened nested s header buffer rest).yield.rows ∧
      OpenAt (complete env opened nested s header buffer rest).state.opened ns' := by
  -- where no section is opened, the nodes come in behind those that are there:
  have hadd (ms : List Node) : ∃ ns', rowsOfAll 0 ns' =
      rowsOfAll 0 ns ++ rowsOfAll s.opened.length ms ∧ OpenAt s.opened ns' := by
    have hms := hopen.append ms (fun front => .here (front ++ ms)) 0
    rwa [Nat.zero_add, List.append_nil] at hms
  cases header with
  | title =>
    have hsection := hopen.append [.mk Node.sectionKind (.text (Text.trim buffer)) []]
      (fun front => .inside front _ (.here [])) 0
    rw [Nat.zero_add, rowsOfAll_singleton, rowsOf_leaf] at hsection
    exact hsection
  | labelId => exact hadd []
  | labelContent id =>
    have hlabel := hadd [Grammar.labelNode env id buffer]
    rw [rowsOfAll_singleton, Grammar.labelNode, rowsOf_leaf] at hlabel
    exact hlabel
  | blockId =>
    have hblock := hadd [.mk Node.blockKind (.block (literal env buffer)
      (Text.trim (TextBlock.find rest).body) (env.render (TextBlock.find rest).body)) []]
    rw [rowsOfAll_singleton, rowsOf_leaf] at hblock
    exact hblock
  | directive =>
    obtain ⟨phase, titles⟩ := s
    rw [complete_phase env opened nested .directive titles phase (.seeking [])] at halt ⊢
    obtain ⟨hrows, -, hstate⟩ := Grammar.addImport_included env opened hn titles buffer
    rw [complete, hrows, hstate halt]
    exact hadd _

theorem opened_collect (s : ReaderState) (word : Text) (c : Char) :
    (collect s word c).opened = s.opened ∨ (collect s word c).opened = s.opened.dropLast := by
  unfold collect
  dsimp only
  split_ifs
  · exact .inl rfl
  · unfold dispatch
    split
    · exact .inl rfl
    · split_ifs
      · exact .inr rfl
      · exact .inl rfl
  · exact .inl rfl

theorem exists_openAt_step {nested' : Text → Text → List Node × Option Halt}
    (hn : Grammar.SameNested nested nested') {s : ReaderState} {c : Char} {rest : Text}
    {ns : List Node} (hopen : OpenAt s.opened ns)
    (halt : (step env opened nested s c rest).halt = none) :
    ∃ ns', rowsOfAll 0 ns' = rowsOfAll 0 ns ++ (step env opened nested s c rest).yield.rows ∧
      OpenAt (step env opened nested s c rest).state.opened ns' := by
  obtain ⟨phase, titles⟩ := s
  cases phase with
  | seeking word =>
    refine ⟨ns, (List.append_nil _).symm, ?_⟩
    change OpenAt (collect ⟨.seeking word, titles⟩ word c).opened ns
    rcases opened_collect ⟨.seeking word, titles⟩ word c with h | h
    · exact h ▸ hopen
    · exact h ▸ hopen.dropLast
  | filling header buffer =>
    unfold step at halt ⊢
    dsimp only at halt ⊢
    split_ifs at halt ⊢ with hc
    · exact exists_openAt_complete hn hopen halt
    · exact ⟨ns, (List.append_nil _).symm, hopen⟩

/-- **The open sections of the reader are those of the tree under construction.** -/
theorem exists_openAt {nested' : Text → Text → List Node × Option Halt}
    (hn : Grammar.SameNested nested nested') {t t' : Text} {y : Yield} {s : ReaderState}
    (h : Reaches env opened nested .initial t y s t') :
    ∃ ns, y.rows = rowsOfAll 0 ns ∧ OpenAt s.opened ns := by
  refine h.invariant (I := fun y s _ => ∃ ns, y.rows = rowsOfAll 0 ns ∧ OpenAt s.opened ns)
    ⟨[], rfl, .here []⟩ ?_
  rintro z s c rest - ⟨ns, hrows, hopen⟩ halt
  obtain ⟨ns', hrows', hopen'⟩ := exists_openAt_step hn hopen halt
  exact ⟨ns', by rw [Yield.rows_append, hrows, hrows'], hopen'⟩

theorem depth_head_course {nested' : Text → Text → List Node × Option Halt}
    (hn : Grammar.SameNested nested nested') (t : Text) (titles : List Text) :
    ∀ r ∈ (course env opened nested ⟨.seeking [], titles⟩ t).yield.rows.head?,
      r.depth ≤ titles.length := by
  induction t using statement_induction generalizing titles with
  | none t hst =>
    obtain ⟨word, hcourse⟩ := course_of_no_statement env opened nested titles hst
    rw [hcourse]
    rintro r ⟨⟩
  | some t st rest hst ih =>
    rw [course_of_statement env opened nested titles hst]
    cases st with
    | heading title =>
      rintro r ⟨⟩
      exact le_rfl
    | label id content =>
      rintro r ⟨⟩
      exact le_rfl
    | block id body closed =>
      rintro r ⟨⟩
      exact le_rfl
    | inclusion directive =>
      obtain ⟨hrows, -, hstate⟩ := Grammar.addImport_included env opened hn titles directive
      rw [perform]
      cases halt : (addImport env opened nested ⟨.seeking [], titles⟩ directive).halt with
      | some h =>
        have hnone : ∀ r ∈ ([] : Outline).head?, r.depth ≤ titles.length := by rintro r ⟨⟩
        have hnodes := depth_head_le (Grammar.included env opened nested' directive).1 hnone
        rw [List.append_nil, ← hrows] at hnodes
        simp only [resume, halt]
        exact hnodes
      | none =>
        simp only [resume, halt]
        rw [hstate halt, Reading.yield_after, Yield.rows_append, hrows]
        exact depth_head_le _ (ih titles)
    | close =>
      intro r hr
      have hle := ih titles.dropLast r hr
      rw [List.length_dropLast] at hle
      exact hle.trans (Nat.sub_le _ _)
    | idle => exact ih titles

/-! ### Imports -/

/-- **An import gives a tolerant reader some nodes and nothing else**, whatever the other document
is. The document is compared with the same document without the line of the import. Its tree is the
tree of that one, with the forest of the imported document inserted behind the last node that the
innermost open section had there; the last state is the same, and so is what makes the reading halt,
if anything does.

The imports of the other document must come to an end, as they do in every finite library
(`halt_ne_tooDeep`). -/
theorem import_contained {titles : List Text} {p name r path d : Text}
    (htolerant : env.strict = false) (hpoint : ImportPoint env opened titles p name r path d)
    (hdeep : (importing env opened path d).halt ≠ some .tooDeep) :
    let inner := env.read (path :: opened) d
    let imported := env.read opened (p ++ (importLine name ++ r))
    let plain := env.read opened (p ++ r)
    inner.halt = none ∧
      Inserted inner.tree titles (env.read opened p).tree plain.tree imported.tree ∧
      imported.state = plain.state ∧ imported.halt = plain.halt ∧
      env.stop? opened (p ++ (importLine name ++ r)) = env.stop? opened (p ++ r) := by
  intro inner imported plain
  obtain ⟨folder, hroot⟩ := Import.root_of_target hpoint.target
  have hhalt : (importing env opened path d).halt = none :=
    halt_readWithin_tolerant htolerant hroot hdeep
  have hinner : inner = importing env opened path d := readWithin_stable (Nat.le_succ _) hdeep
  have hn : Grammar.SameNested (importing env opened) fun path source =>
      Grammar.document env env.library.nesting (path :: opened) source :=
    fun path source => Grammar.readWithin_document env _ (path :: opened) source
  -- the rows up to the line, where the sections `titles` are open:
  obtain ⟨y, hy⟩ := hpoint.comes
  obtain ⟨ns, hns, (hopen : OpenAt titles ns)⟩ := exists_openAt hn hy
  have hleads : Leads env opened (importing env opened) [] p titles y :=
    hy.leads (importLine_append_ne_nil name r) (.inl hpoint.lines)
  have hearly : (env.read opened p).tree = forest y.rows := by
    have hread := (read_of_leads hleads (List.forall_mem_nil _)).1
    rw [List.append_nil] at hread
    rw [Reading.tree, hread]
  -- the rows that follow are the same in both documents:
  have himport := course_importLine titles hpoint.line hpoint.target hpoint.notOpen hpoint.fetch
    hhalt r
  obtain ⟨hrows₁, hstate₁, hstop₁⟩ := read_of_course
    ((hleads (importLine name ++ r)).trans (himport ▸ Reading.after_after _ _ _))
  obtain ⟨hrows₂, hstate₂, hstop₂⟩ := read_of_course (hleads r)
  have hstop : env.stop? opened (p ++ (importLine name ++ r)) = env.stop? opened (p ++ r) :=
    hstop₁.trans hstop₂.symm
  have htail := @depth_head_course env opened _ _ hn r titles
  have hinserted := inserted_forest hopen inner.tree htail
  rw [← hns, ← Grammar.rows_read, ← hrows₂, ← List.append_assoc] at hinserted
  refine ⟨hinner ▸ hhalt, ?_, hstate₁.trans hstate₂.symm, ?_, hstop⟩
  · have himported : imported.tree = forest (y.rows ++ inner.yield.rows.shift titles.length ++
        (course env opened (importing env opened) ⟨.seeking [], titles⟩ r).yield.rows) := by
      rw [hinner]
      exact congrArg forest hrows₁
    rw [himported, hearly]
    exact hinserted
  · rw [halt_read, halt_read, hstop]

/-- A document that leaves a section open and imports itself, imported within a section. -/
theorem import_contained_cyclic :
    let d := "section X\n".toList ++ importLine "f".toList
    let env := { Settings.standard (Instant.read? 2026) id with
      library := .ofList [("./f.resume".toList, d)] }
    let imported :=
      env.read [] ("section S\n".toList ++ (importLine "f".toList ++ "label A:b\n".toList))
    let plain := env.read [] ("section S\n".toList ++ "label A:b\n".toList)
    env.strict = false ∧
      ImportPoint env [] ["S".toList] "section S\n".toList "f".toList "label A:b\n".toList
        "./f.resume".toList d ∧
      (importing env [] "./f.resume".toList d).halt ≠ some .tooDeep ∧
      Inserted [Grammar.sectionNode "X".toList []] ["S".toList]
        (env.read [] "section S\n".toList).tree plain.tree imported.tree ∧
      imported.state = plain.state ∧ imported.halt = plain.halt := by
  intro d env imported plain
  have hpoint := importPoint_in_section d "label A:b\n".toList
  have hdeep : (importing env [] "./f.resume".toList d).halt ≠ some .tooDeep :=
    halt_ne_tooDeep (Library.within_ofList [("./f.resume".toList, d)]) 1 _ _ (by decide)
  obtain ⟨-, hinserted, hstate, hhalt, -⟩ := import_contained rfl hpoint hdeep
  -- the imported document stops where it imports itself, with its section open:
  have hheading : statement? d = some (.heading "X".toList, importLine "f".toList) :=
    statement?_heading (u := " X".toList) (by decide)
  have hline : statement? (importLine "f".toList) =
      some (.inclusion (quotedName "f".toList), []) := by
    have hname : '\n' ∉ "f".toList := by decide
    have hcut := statement?_importLine hname []
    rwa [List.append_nil] at hcut
  have hcycle := addImport_of_mem env ["./f.resume".toList] (importing env ["./f.resume".toList])
    ⟨.seeking [], ["X".toList]⟩ hpoint.target List.mem_cons_self
  have hinner : (env.read ["./f.resume".toList] d).tree = [Grammar.sectionNode "X".toList []] := by
    rw [Reading.tree, rows_read_eq, ReaderState.initial, course_of_statement _ _ _ [] hheading]
    have himport : course env ["./f.resume".toList] (importing env ["./f.resume".toList])
        ⟨.seeking [], ["X".toList]⟩ (importLine "f".toList) = _ :=
      (course_of_statement _ _ _ _ hline).trans (congrArg (resume _ _ _ · []) hcycle)
    change forest (_ :: (course env ["./f.resume".toList] (importing env ["./f.resume".toList])
      ⟨.seeking [], ["X".toList]⟩ (importLine "f".toList)).yield.rows) = _
    rw [himport]
    rfl
  rw [hinner] at hinserted
  exact ⟨rfl, hpoint, hdeep, hinserted, hstate, hhalt⟩

end Reader

end Vitae
