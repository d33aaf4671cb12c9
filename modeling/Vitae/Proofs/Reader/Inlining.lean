import Vitae.Instant.Reading
import Vitae.Proofs.Reader.Agreement

/-!
# Imports of self-contained documents

A document is self-contained if it is read without a refusal, closes every block of prose and every
section that it opens, and closes nothing else. Writing such a document in the place of its import
changes nothing: `Reader.import_eq_inlined`.

The reading of the document stands in two surroundings. As an imported document it starts with no
section open, has nothing behind it, and is open itself. Written in place, it starts within the open
sections of the other document, and the rest of that document stands behind it. The three
differences are dealt with one by one:

* `Reader.step_within` : open sections below those of a state are left alone by a step, unless it
  closes a section too many.
* `Reader.step_append_of_closed` : what stands behind a text does not matter to a step that closes
  its block.
* `Reader.addImport_of_calm` : where nothing is refused, documents that are open do not matter.
-/

namespace Vitae

open Text

/-! ### Sections around a reading -/

/-- The state with further sections open around it. -/
def ReaderState.within (titles : List Text) (s : ReaderState) : ReaderState :=
  { s with opened := titles ++ s.opened }

/-- The yield with its rows `d` levels deeper. -/
def Yield.deeper (d : Nat) (y : Yield) : Yield :=
  { y with rows := y.rows.shift d }

/-- The outcome with further sections open around it. -/
def Outcome.within (titles : List Text) (o : Outcome) : Outcome :=
  { o with state := o.state.within titles, yield := o.yield.deeper titles.length }

theorem Outline.shift_append (d : Nat) (a b : Outline) :
    (a ++ b).shift d = a.shift d ++ b.shift d :=
  List.map_append

theorem Outline.shift_shift (d e : Nat) (rows : Outline) :
    (rows.shift d).shift e = rows.shift (d + e) := by
  simp only [Outline.shift, List.map_map, Function.comp_def, Nat.add_assoc]

theorem Yield.deeper_append (d : Nat) (y z : Yield) :
    (y ++ z).deeper d = y.deeper d ++ z.deeper d := by
  change (⟨_, _, _⟩ : Yield) = ⟨_, _, _⟩
  simp only [Yield.rows_append, Outline.shift_append]
  rfl

theorem Yield.deeper_imported (d e : Nat) (y : Yield) :
    (y.imported d).deeper e = y.imported (e + d) := by
  simp only [Yield.deeper, Yield.imported, Outline.shift_shift, Nat.add_comm d e]

namespace Reader

variable {env : Settings} {opened opened' : List Text} {nested nested' : Text → Text → Reading}
variable (titles : List Text)

theorem depth_within (s : ReaderState) : (s.within titles).depth = titles.length + s.depth :=
  List.length_append

theorem row_within (s : ReaderState) (kind : Text) (value : Value) :
    (Yield.row ⟨(s.within titles).depth, kind, value⟩) =
      (Yield.row ⟨s.depth, kind, value⟩).deeper titles.length := by
  rw [depth_within, Nat.add_comm]
  rfl

theorem addImport_within (s : ReaderState) (directive : Text) :
    addImport env opened nested (s.within titles) directive =
      (addImport env opened nested s directive).within titles := by
  cases target : Import.target env.root directive with
  | error h =>
    rw [addImport_of_error env opened nested s target,
      addImport_of_error env opened nested _ target]
    rfl
  | ok path =>
    by_cases isOpen : path ∈ opened
    · rw [addImport_of_mem env opened nested s target isOpen,
        addImport_of_mem env opened nested _ target isOpen]
      rfl
    · rw [addImport_of_notMem env opened nested s target isOpen,
        addImport_of_notMem env opened nested _ target isOpen]
      cases env.library.fetch path with
      | error fault => rfl
      | ok source =>
        simp only [takeOver, depth_within, ← Yield.deeper_imported]
        cases (nested path source).halt with
        | some h => rfl
        | none => rfl

theorem complete_within (s : ReaderState) (header : Header) (buffer rest : Text) :
    complete env opened nested (s.within titles) header buffer rest =
      (complete env opened nested s header buffer rest).within titles := by
  cases header with
  | title =>
    simp only [complete, openSection, row_within, Outcome.within]
    rw [ReaderState.within, ReaderState.within, List.append_assoc]
    rfl
  | labelId => rfl
  | labelContent id =>
    simp only [complete, addLabel, row_within]
    rfl
  | blockId =>
    simp only [complete, addBlock, row_within]
    rfl
  | directive => exact addImport_within titles s buffer

theorem dispatch_within {s : ReaderState} {keyword : Text}
    (hinside : keyword = "end".toList → s.opened ≠ []) :
    dispatch (s.within titles) keyword = (dispatch s keyword).within titles := by
  unfold dispatch
  cases header? keyword with
  | some header => rfl
  | none =>
    dsimp only
    split_ifs with hend
    · have hdrop : (titles ++ s.opened).dropLast = titles ++ s.opened.dropLast :=
        List.dropLast_append_of_ne_nil (hinside hend)
      simp only [ReaderState.within, ReaderState.seek, hdrop]
    · rfl

theorem collect_within {s : ReaderState} {word : Text} {c : Char}
    (hinside : word ++ [c] = "end".toList → s.opened ≠ []) :
    collect (s.within titles) word c = (collect s word c).within titles := by
  unfold collect
  dsimp only
  split_ifs
  · rfl
  · exact dispatch_within titles hinside
  · rfl

/-- **A step leaves alone the sections around those of its state**, unless it closes a section where
none of its own is open. -/
theorem step_within {s : ReaderState} {c : Char} {rest : Text}
    (hinside : ∀ word, s.phase = .seeking word → word ++ [c] = "end".toList → s.opened ≠ []) :
    step env opened nested (s.within titles) c rest =
      (step env opened nested s c rest).within titles := by
  obtain ⟨phase, own⟩ := s
  cases phase with
  | seeking word =>
    exact congrArg Outcome.moved
      (collect_within titles (s := ⟨.seeking word, own⟩) (hinside word rfl))
  | filling header buffer =>
    unfold step
    simp only [ReaderState.within]
    split_ifs with hc
    · exact complete_within titles ⟨.filling header buffer, own⟩ header buffer rest
    · rfl

/-! ### Tidy readings -/

variable (env opened nested) in
/-- The reader gets from a state, with a text to come, to the end of the text, and is then between
constructs with no word begun and no section open. On the way every block of prose has a closing
line, and every `end` closes a section. -/
inductive Tidy : ReaderState → Text → Prop
  | done : Tidy .initial []
  | step {s : ReaderState} {c : Char} {rest : Text}
    (halt : (step env opened nested s c rest).halt = none)
    (closed : ∀ buffer, s.phase = .filling .blockId buffer → c = ':' →
      (TextBlock.find rest).terminated = true)
    (inside : ∀ word, s.phase = .seeking word → word ++ [c] = "end".toList → s.opened ≠ [])
    (next : Tidy (step env opened nested s c rest).state
      (rest.drop (step env opened nested s c rest).used)) : Tidy s (c :: rest)

theorem after_within (o : Outcome) (r : Reading) (y : Yield) (d : Nat) :
    (r.after (y.deeper d)).after (o.yield.deeper d) = r.after ((o.yield ++ y).deeper d) := by
  rw [Reading.after_after, Yield.deeper_append]

/-- **A tidy and calm text is read the same within other sections**, before other text, and with
fewer documents open. -/
theorem Tidy.course (himport : AgreeWhere Calm env opened nested opened' nested')
    {s : ReaderState} {t : Text} (h : Tidy env opened nested s t) (hline : t = [] ∨ EndsLine t)
    (hcalm : (course env opened nested s t).Calm) (v : Text) :
    course env opened' nested' (s.within titles) (t ++ v) =
      (Reader.course env opened' nested' ⟨.seeking [], titles⟩ v).after
        ((Reader.course env opened nested s t).yield.deeper titles.length) := by
  induction h with
  | done =>
    have hstate : ReaderState.initial.within titles = ⟨.seeking [], titles⟩ := by
      simp only [ReaderState.within, ReaderState.initial, List.append_nil]
    have hyield : (Reader.course env opened nested .initial []).yield = .empty :=
      congrArg Reading.yield (course_seeking_nil env opened nested [] [])
    rw [hstate, hyield]
    rfl
  | @step s c rest halt closed inside next ih =>
    have hrest : rest = [] ∨ EndsLine rest := lines_of_suffix hline (List.suffix_cons c rest)
    rw [course_cons, resume, halt] at hcalm ⊢
    obtain ⟨hfirst, hnext⟩ := calm_append _ _ _ hcalm
    have happend : Reader.step env opened' nested' s c (rest ++ v) =
        Reader.step env opened' nested' s c (rest ++ []) := by
      refine step_append_of_closed env opened' nested' ?_ (.inl hrest) v
      intro buffer hphase hc
      rw [List.append_nil]
      exact ⟨closed buffer hphase hc, TextBlock.consumed_le rest⟩
    have hsame : Reader.step env opened' nested' s c rest =
        Reader.step env opened nested s c rest := step_congr himport (halt ▸ hfirst)
    have hstep : Reader.step env opened' nested' (s.within titles) c (rest ++ v) =
        (Reader.step env opened nested s c rest).within titles := by
      rw [step_within titles inside, happend, List.append_nil, hsame]
    have hused := used_step_le env opened nested s c rest
    have hgoesOn := ih (lines_of_suffix hrest (List.drop_suffix _ rest)) hnext
    rw [List.cons_append, course_cons, hstep, resume]
    simp only [Outcome.within, halt]
    rw [List.drop_append_of_le_length hused, hgoesOn, after_within]
    rfl

/-! ### Imports -/

/-- What follows the keyword of an import in a line: a name in double quotes. -/
def quotedName (name : Text) : Text :=
  ' ' :: '"' :: (name ++ ['"'])

/-- The line that imports a document by a name. -/
def importLine (name : Text) : Text :=
  "@import".toList ++ (quotedName name ++ ['\n'])

theorem importLine_append (name v : Text) :
    importLine name ++ v = "@import".toList ++ (quotedName name ++ '\n' :: v) := by
  have hline : quotedName name ++ ['\n'] ++ v = quotedName name ++ '\n' :: v :=
    List.append_assoc _ _ _
  rw [← hline]
  exact List.append_assoc _ _ _

theorem statement?_importLine {name : Text} (hname : '\n' ∉ name) (v : Text) :
    statement? (importLine name ++ v) = some (.inclusion (quotedName name), v) := by
  rw [importLine_append]
  exact statement?_inclusion (by simp [quotedName, hname])

/-- An import that can be read contributes what the other document yields, and the reading goes on
behind it. -/
theorem course_importLine {name path d : Text} (titles : List Text) (hname : '\n' ∉ name)
    (target : Import.target env.root (quotedName name) = .ok path) (notOpen : path ∉ opened)
    (fetch : env.library.fetch path = .ok d) (halt : (nested path d).halt = none) (v : Text) :
    course env opened nested ⟨.seeking [], titles⟩ (importLine name ++ v) =
      (course env opened nested ⟨.seeking [], titles⟩ v).after
        (asked env path ++ (nested path d).yield.imported titles.length) := by
  rw [course_of_statement env opened nested titles (statement?_importLine hname v), perform,
    addImport_of_notMem env opened nested _ target notOpen, fetch]
  simp only [takeOver, halt]
  rfl

variable (env opened) in
/-- In a document that goes on with the line that imports `d` by a name, and then with `r`, the
reader comes to this line behind `p`. It is between constructs there, with no word begun and with
these sections open, and the library answers the import with `d`. -/
structure ImportPoint (titles : List Text) (p name r path d : Text) : Prop where
  lines : p = [] ∨ EndsLine p
  comes : ∃ y, Reaches env opened (importing env opened) .initial (p ++ (importLine name ++ r)) y
    ⟨.seeking [], titles⟩ (importLine name ++ r)
  line : '\n' ∉ name
  target : Import.target env.root (quotedName name) = .ok path
  notOpen : path ∉ opened
  fetch : env.library.fetch path = .ok d

theorem importLine_append_ne_nil (name r : Text) : importLine name ++ r ≠ [] := by
  rw [importLine_append]
  exact List.append_ne_nil_of_right_ne_nil _ (by simp [quotedName])

/-- What stands before the import is read the same, whatever stands in the place of the import. -/
theorem ImportPoint.leads {titles : List Text} {p name r path d : Text}
    (h : ImportPoint env opened titles p name r path d) :
    ∃ y, Leads env opened (importing env opened) [] p titles y := by
  obtain ⟨y, hy⟩ := h.comes
  exact ⟨y, hy.leads (importLine_append_ne_nil name r) (.inl h.lines)⟩

variable (env opened) in
/-- A document that can be written in the place of its import while the documents `opened` are being
read: it ends with a line, nothing is refused in it or in what it imports, it closes every block of
prose and every section that it opens, and closes nothing else. -/
structure SelfContained (path d : Text) : Prop where
  lines : d = [] ∨ EndsLine d
  calm : (importing env opened path d).Calm
  tidy : Tidy env (path :: opened) (importing env (path :: opened)) .initial d

namespace SelfContained

variable {path d : Text}

/-- As an outermost document it is read as it is when it is imported. -/
theorem read_eq (h : SelfContained env opened path d) :
    env.read (path :: opened) d = importing env opened path d :=
  readWithin_of_calm (Nat.le_succ _) (List.Subset.refl _) h.calm

theorem course_calm (h : SelfContained env opened path d) :
    (course env (path :: opened) (importing env (path :: opened)) .initial d).Calm := by
  have hread : (env.read (path :: opened) d).Calm := h.read_eq ▸ h.calm
  have hrun : (run env (path :: opened) (importing env (path :: opened)) 0 .initial d).Calm :=
    calm_of_tolerate hread
  exact hrun

/-- Written in place it yields the rows that it yields when it is imported. -/
theorem leads (h : SelfContained env opened path d) (titles : List Text) :
    ∃ y, Leads env opened (importing env opened) titles d titles y ∧
      y.rows = ((importing env opened path d).yield.imported titles.length).rows := by
  have himport : AgreeWhere Calm env (path :: opened) (importing env (path :: opened)) opened
      (importing env opened) := fun s directive hcalm =>
    addImport_of_calm (List.subset_cons_self path opened)
      (fun path' source hnested => readWithin_of_calm le_rfl
        (List.cons_subset_cons path' (List.subset_cons_self path opened)) hnested) hcalm
  have hcourse := h.tidy.course titles himport h.lines h.course_calm
  have hstate : ReaderState.initial.within titles = ⟨.seeking [], titles⟩ := by
    simp only [ReaderState.within, ReaderState.initial, List.append_nil]
  rw [hstate] at hcourse
  refine ⟨_, hcourse, ?_⟩
  rw [← h.read_eq]
  exact congrArg (Outline.shift titles.length) (rows_read_eq env (path :: opened) d).symm

end SelfContained

/-- **Writing a self-contained document in the place of its import changes nothing**: the tree with
its parent links, the open sections and the last state are the same, and so is what makes the
reading halt, if anything does. -/
theorem import_eq_inlined {titles : List Text} {p name r path d : Text}
    (hpoint : ImportPoint env opened titles p name r path d)
    (hself : SelfContained env opened path d) :
    let imported := env.read opened (p ++ (importLine name ++ r))
    let inlined := env.read opened (p ++ (d ++ r))
    imported.tree = inlined.tree ∧
      imported.yield.rows.parents = inlined.yield.rows.parents ∧
      imported.state = inlined.state ∧ imported.halt = inlined.halt ∧
      env.stop? opened (p ++ (importLine name ++ r)) = env.stop? opened (p ++ (d ++ r)) := by
  intro imported inlined
  obtain ⟨y, hp⟩ := hpoint.leads
  obtain ⟨z, hd, hz⟩ := hself.leads titles
  have himport := course_importLine titles hpoint.line hpoint.target hpoint.notOpen hpoint.fetch
    hself.calm.1 r
  obtain ⟨hrows₁, hstate₁, hstop₁⟩ := read_of_course
    ((hp (importLine name ++ r)).trans (himport ▸ Reading.after_after _ _ _))
  obtain ⟨hrows₂, hstate₂, hstop₂⟩ := read_of_course
    ((hp (d ++ r)).trans (hd r ▸ Reading.after_after _ _ _))
  have hrows : imported.yield.rows = inlined.yield.rows := by
    rw [hrows₁, hrows₂]
    simp only [Yield.rows_append, hz]
    rfl
  have hstate : imported.state = inlined.state := hstate₁.trans hstate₂.symm
  have hstop : env.stop? opened (p ++ (importLine name ++ r)) =
      env.stop? opened (p ++ (d ++ r)) := hstop₁.trans hstop₂.symm
  refine ⟨congrArg Outline.forest hrows, congrArg Outline.parents hrows, hstate, ?_, hstop⟩
  rw [halt_read, halt_read, hstop]

/-- A library that holds a single document, and an import of it in a section. -/
theorem importPoint_in_section (d r : Text) :
    ImportPoint { Settings.standard (Instant.read? 2026) id with
        library := .ofList [("./f.resume".toList, d)] }
      [] ["S".toList] "section S\n".toList "f".toList r "./f.resume".toList d := by
  let env := { Settings.standard (Instant.read? 2026) id with
    library := .ofList [("./f.resume".toList, d)] }
  have hkeyword := keyword?_append (k := "section".toList) (by decide)
    (" S\n".toList ++ (importLine "f".toList ++ r))
  have htitle := @reaches_filling env [] (importing env []) .title " S".toList [] [] (by decide)
    ('\n' :: (importLine "f".toList ++ r))
  have hcomes := (reaches_keyword [] hkeyword).trans (htitle.trans (.step rfl (.here _ _)))
  have htarget : Import.target (.ok ['.']) (quotedName "f".toList) = .ok "./f.resume".toList := by
    decide +kernel
  exact ⟨.inr rfl, ⟨_, hcomes⟩, by decide, htarget, List.not_mem_nil, rfl⟩

/-- An import within a section, of a document with a label. -/
theorem import_eq_inlined_in_section :
    let env := { Settings.standard (Instant.read? 2026) id with
      library := .ofList [("./f.resume".toList, "label A:b\n".toList)] }
    let imported := env.read [] ("section S\n".toList ++ (importLine "f".toList ++ "end\n".toList))
    let inlined := env.read [] ("section S\n".toList ++ ("label A:b\n".toList ++ "end\n".toList))
    ImportPoint env [] ["S".toList] "section S\n".toList "f".toList "end\n".toList
        "./f.resume".toList "label A:b\n".toList ∧
      SelfContained env [] "./f.resume".toList "label A:b\n".toList ∧
      imported.tree = inlined.tree ∧ imported.yield.rows.parents = inlined.yield.rows.parents ∧
      imported.state = inlined.state ∧ imported.halt = inlined.halt := by
  intro env imported inlined
  have hpoint := importPoint_in_section "label A:b\n".toList "end\n".toList
  have hself : SelfContained env [] "./f.resume".toList "label A:b\n".toList := by
    refine ⟨.inr rfl, calm_readWithin ?_, ?_⟩
    · have hid : ':' ∉ " A".toList := by decide
      have hcontent : '\n' ∉ "b".toList := by decide
      have hlabel (v : Text) : statement? ("label A:b\n".toList ++ v) =
          some (.label " A".toList "b".toList, v) := statement?_label hid hcontent
      exact (leads_of_statement hlabel rfl).calm rfl
    · rw [show "label A:b\n".toList = ['l', 'a', 'b', 'e', 'l', ' ', 'A', ':', 'b', '\n'] from rfl]
      -- one step for each character; none of them closes a block or a section:
      iterate 10
        refine .step rfl (by rintro _ ⟨⟩)
          (by rintro _ ⟨⟩ <;> exact fun hend => absurd hend (by decide)) ?_
      exact .done
  obtain ⟨htree, hparents, hstate, hhalt, -⟩ := import_eq_inlined hpoint hself
  exact ⟨hpoint, hself, htree, hparents, hstate, hhalt⟩

end Reader

end Vitae
