import Vitae.Proofs.Reader.Ending
import Vitae.Proofs.Reader.Point

/-!
# One more character

When a document gets one more character at its end, its outline gets at most one more row, or its
last row gets another value (`one_character_more`). So what a reader shows while somebody types only
ever changes at the end.

The end of a document completes whatever it cuts off, and one more character can complete it too, or
can become a part of it. `Reader.statement?_snoc` says what it does to the first statement of a
text: nothing, if something follows the statement; otherwise the statement may be another one, but
of the same sort (`Statement.SameSort`), and nothing follows it. This includes a block whose closing
line stops being one.
-/

namespace Vitae

open Text

/-! ### Cuts and one more character -/

theorem Text.behind_snoc_of_notMem {stop : Char} {t : Text} (h : stop ∉ t) (c : Char) :
    behind stop (t ++ [c]) = [] := by
  by_cases hc : c = stop
  · subst hc
    exact behind_append_cons h
  · refine behind_of_not_mem fun hmem => ?_
    rcases List.mem_append.1 hmem with hmem | hmem
    · exact h hmem
    · exact hc (List.mem_singleton.1 hmem).symm

/-- A text without a newline in front of its last character has no closing line with something
behind it. -/
theorem Prose.rest_of_notMem {t : Text} (h : '\n' ∉ t.dropLast) : (read t).rest = [] := by
  induction t with
  | nil => rfl
  | cons c t ih =>
    cases t with
    | nil =>
      rw [read_cons fun hclose => absurd hclose.2 (by decide)]
      rfl
    | cons d t =>
      rw [List.dropLast_cons_cons, List.mem_cons, not_or] at h
      rw [read_cons fun hclose => h.1 hclose.1.symm]
      exact ih h.2

theorem Prose.read_snoc (t : Text) (c : Char) :
    read (t ++ [c]) = { read t with rest := (read t).rest ++ [c] } ∨
      ((read t).rest = [] ∧ (read (t ++ [c])).rest = []) := by
  induction t with
  | nil => exact .inr ⟨rfl, rest_of_notMem (List.not_mem_nil)⟩
  | cons a t ih =>
    rw [List.cons_append]
    by_cases hmem : '\n' ∈ t
    -- the line behind `a` ends within `t`:
    · have hline : before '\n' (t ++ [c]) = before '\n' t := before_append hmem
      by_cases ha : a = '\n' ∧ trim (before '\n' t) = TextBlock.terminator
      · obtain ⟨rfl, hclose⟩ := ha
        refine .inl ?_
        rw [read_close hclose, read_close (by rwa [hline]), behind_append hmem]
      · rw [read_cons ha, read_cons (by rwa [hline])]
        rcases ih with h | h
        · exact .inl (by rw [h])
        · exact .inr h
    -- the line behind `a` is the last one, so nothing stands behind it:
    · have hlast {u : Text} (hbehind : behind '\n' u = []) (hu : '\n' ∉ u.dropLast) :
          (read (a :: u)).rest = [] := by
        by_cases ha : a = '\n' ∧ trim (before '\n' u) = TextBlock.terminator
        · rw [ha.1, read_close ha.2, hbehind]
        · rw [read_cons ha]
          exact rest_of_notMem hu
      refine .inr ⟨hlast (behind_of_not_mem hmem) ?_, hlast (behind_snoc_of_notMem hmem c) ?_⟩
      · exact fun h => hmem (List.dropLast_subset t h)
      · rwa [List.dropLast_concat]

/-! ### Statements -/

/-- Two statements are of the same sort, one that the end of a text may cut off. -/
inductive Statement.SameSort : Statement → Statement → Prop
  | heading (title title' : Text) : SameSort (.heading title) (.heading title')
  | label (id content id' content' : Text) : SameSort (.label id content) (.label id' content')
  | block (id body : Text) (closed : Bool) (id' body' : Text) (closed' : Bool) :
    SameSort (.block id body closed) (.block id' body' closed')
  | inclusion (directive directive' : Text) :
    SameSort (.inclusion directive) (.inclusion directive')

namespace Reader

/-- What one more character at the end of a text does to the statement that the text starts with,
once its keyword is complete. -/
theorem statementOf_snoc (keyword t : Text) (c : Char) :
    statementOf keyword (t ++ [c]) = ((statementOf keyword t).1, (statementOf keyword t).2 ++ [c]) ∨
      ((statementOf keyword t).2 = [] ∧ (statementOf keyword (t ++ [c])).2 = [] ∧
        (statementOf keyword t).1.SameSort (statementOf keyword (t ++ [c])).1) := by
  unfold statementOf
  split_ifs
  · by_cases h : '\n' ∈ t
    · exact .inl (by rw [before_append h, behind_append h])
    · exact .inr ⟨behind_of_not_mem h, behind_snoc_of_notMem h c, .heading _ _⟩
  · by_cases hcolon : ':' ∈ t
    · rw [before_append hcolon, behind_append hcolon]
      by_cases h : '\n' ∈ behind ':' t
      · exact .inl (by rw [before_append h, behind_append h])
      · exact .inr ⟨behind_of_not_mem h, behind_snoc_of_notMem h c, .label _ _ _ _⟩
    · rw [behind_of_not_mem hcolon, behind_snoc_of_notMem hcolon c]
      exact .inr ⟨rfl, rfl, .label _ _ _ _⟩
  · by_cases hcolon : ':' ∈ t
    · simp only [before_append hcolon, behind_append hcolon]
      rcases Prose.read_snoc (behind ':' t) c with h | ⟨h, h'⟩
      · exact .inl (by rw [h])
      · exact .inr ⟨h, h', .block _ _ _ _ _ _⟩
    · simp only [behind_of_not_mem hcolon, behind_snoc_of_notMem hcolon c]
      exact .inr ⟨rfl, rfl, .block _ _ _ _ _ _⟩
  · by_cases h : '\n' ∈ t
    · exact .inl (by rw [before_append h, behind_append h])
    · exact .inr ⟨behind_of_not_mem h, behind_snoc_of_notMem h c, .inclusion _ _⟩
  · exact .inl rfl
  · exact .inl rfl

/-- What one more character at the end does to the first statement of a text. -/
inductive Snoc (t : Text) (c : Char) : Prop
  /-- There is no statement with or without it. -/
  | silent (before : statement? t = none) (after : statement? (t ++ [c]) = none)
  /-- It completes a keyword. -/
  | begun (st : Statement) (before : statement? t = none)
    (after : statement? (t ++ [c]) = some (st, []))
  /-- It comes behind the statement. -/
  | behind (st : Statement) (rest : Text) (before : statement? t = some (st, rest))
    (after : statement? (t ++ [c]) = some (st, rest ++ [c]))
  /-- It changes the statement, and nothing follows the statement. -/
  | changed (st st' : Statement) (before : statement? t = some (st, []))
    (after : statement? (t ++ [c]) = some (st', [])) (sort : st.SameSort st')

theorem statement?_snoc (t : Text) (c : Char) : Snoc t c := by
  cases hk : keyword? [] t with
  | none =>
    have hbefore : statement? t = none := by rw [statement?, hk, Option.map_none]
    obtain ⟨word, hword, -⟩ := keyword?_append_of_none hk
    cases hc : keyword? word [c] with
    | none => exact .silent hbefore (by rw [statement?, hword, hc, Option.map_none])
    | some cut =>
      obtain ⟨keyword, rest⟩ := cut
      have hlt := length_of_keyword? hc
      obtain rfl : rest = [] := List.length_eq_zero_iff.1 (by simpa using hlt)
      have hend : (statementOf keyword []).2 = [] :=
        List.length_eq_zero_iff.1 (Nat.le_zero.1 (length_statementOf_le keyword []))
      refine .begun (statementOf keyword []).1 hbefore ?_
      rw [statement?, hword, hc, Option.map_some]
      exact congrArg some (Prod.ext rfl hend)
  | some cut =>
    obtain ⟨keyword, rest⟩ := cut
    have hbefore : statement? t = some (statementOf keyword rest) := by
      rw [statement?, hk, Option.map_some]
    have hafter : statement? (t ++ [c]) = some (statementOf keyword (rest ++ [c])) := by
      rw [statement?, keyword?_append_of_some hk, Option.map_some]
    rcases statementOf_snoc keyword rest c with h | ⟨h, h', hsort⟩
    · exact .behind _ _ hbefore (hafter.trans (congrArg some h))
    · exact .changed _ _ (hbefore.trans (congrArg some (Prod.ext rfl h)))
        (hafter.trans (congrArg some (Prod.ext rfl h'))) hsort

end Reader

/-! ### Outlines -/

/-- One more character leads from the first outline to the second. -/
inductive Outline.Grown : Outline → Outline → Prop
  | same (rows : Outline) : Grown rows rows
  /-- There is one row more. -/
  | added (rows : Outline) (row : Row) : Grown rows (rows ++ [row])
  /-- The last row has another value. -/
  | revised (front : Outline) (depth : Nat) (kind : Text) (value value' : Value) :
    Grown (front ++ [⟨depth, kind, value⟩]) (front ++ [⟨depth, kind, value'⟩])

theorem Outline.Grown.prepend {rows rows' : Outline} (h : rows.Grown rows') (front : Outline) :
    Grown (front ++ rows) (front ++ rows') := by
  cases h with
  | same rows => exact .same _
  | added rows row =>
    rw [← List.append_assoc]
    exact .added _ row
  | revised inner depth kind value value' =>
    rw [← List.append_assoc, ← List.append_assoc]
    exact .revised _ depth kind value value'

namespace Reader

/-- What two readings have in common when the second text has one more character. -/
structure Continued (early late : Reading) : Prop where
  rows : early.yield.rows.Grown late.yield.rows
  opened : late.state.opened.length ≤ early.state.opened.length + 1
  closed : early.state.opened.length ≤ late.state.opened.length + 1

theorem Continued.after {early late : Reading} (h : Continued early late) (y : Yield) :
    Continued (early.after y) (late.after y) :=
  ⟨h.rows.prepend y.rows, h.opened, h.closed⟩

variable {env : Settings} {opened : List Text} {nested : Text → Text → Reading}

variable (env opened nested) in
/-- No import contributes anything. -/
def ImportsNothing : Prop :=
  ∀ s directive, (addImport env opened nested s directive).yield.rows = []

variable (env opened nested) in
theorem course_of_last {t : Text} {st : Statement} (titles : List Text)
    (hst : statement? t = some (st, [])) :
    (course env opened nested ⟨.seeking [], titles⟩ t).yield =
        (perform env opened nested titles st).yield ∧
      (course env opened nested ⟨.seeking [], titles⟩ t).state =
        (perform env opened nested titles st).state := by
  have hseeks : (perform env opened nested titles st).halt = none →
      (perform env opened nested titles st).state.phase = .seeking [] :=
    fun halt => congrArg ReaderState.phase (perform_seeks env opened nested titles st halt)
  rw [course_of_statement env opened nested titles hst, resume_nil env opened nested hseeks]
  exact ⟨rfl, rfl⟩

theorem perform_first (hnothing : ImportsNothing env opened nested) (titles : List Text)
    (st : Statement) :
    Outline.Grown [] (perform env opened nested titles st).yield.rows ∧
      (perform env opened nested titles st).state.opened.length ≤ titles.length + 1 ∧
      titles.length ≤ (perform env opened nested titles st).state.opened.length + 1 := by
  cases st with
  | heading title =>
    have hlength : (titles ++ [title]).length = titles.length + 1 := by simp
    exact ⟨.added [] _, hlength.le, by simp only [perform, openSection, hlength]; omega⟩
  | label id content => exact ⟨.added [] _, Nat.le_succ _, Nat.le_succ _⟩
  | block id body closed => exact ⟨.added [] _, Nat.le_succ _, Nat.le_succ _⟩
  | inclusion directive =>
    rw [perform, hnothing _ directive, opened_addImport]
    exact ⟨.same [], Nat.le_succ _, Nat.le_succ _⟩
  | close =>
    have hlength : titles.dropLast.length = titles.length - 1 := List.length_dropLast
    refine ⟨.same [], ?_, ?_⟩ <;> simp only [perform, Outcome.moved, hlength] <;> omega
  | idle => exact ⟨.same [], Nat.le_succ _, Nat.le_succ _⟩

/-- Statements of the same sort yield the same but for a value, and open the same sections but for
their titles. -/
theorem perform_sameSort (hnothing : ImportsNothing env opened nested) (titles : List Text)
    {st st' : Statement} (h : st.SameSort st') :
    (perform env opened nested titles st).yield.rows.Grown
        (perform env opened nested titles st').yield.rows ∧
      (perform env opened nested titles st').state.opened.length =
        (perform env opened nested titles st).state.opened.length := by
  cases h with
  | heading title title' =>
    have hlength (title : Text) : (titles ++ [title]).length = titles.length + 1 := by simp
    exact ⟨.revised [] _ _ _ _, (hlength title').trans (hlength title).symm⟩
  | label id content id' content' => exact ⟨.revised [] _ _ _ _, rfl⟩
  | block id body closed id' body' closed' => exact ⟨.revised [] _ _ _ _, rfl⟩
  | inclusion directive directive' =>
    simp only [perform, hnothing _ directive, hnothing _ directive', opened_addImport]
    exact ⟨.same [], trivial⟩

/-- **One more character changes a course only at its end**, if imports contribute nothing. -/
theorem course_snoc (hnothing : ImportsNothing env opened nested) (t : Text) (c : Char)
    (titles : List Text) :
    Continued (course env opened nested ⟨.seeking [], titles⟩ t)
      (course env opened nested ⟨.seeking [], titles⟩ (t ++ [c])) := by
  induction t using statement_induction generalizing titles with
  | none t hst =>
    obtain ⟨word, hearly⟩ := course_of_no_statement env opened nested titles hst
    cases statement?_snoc t c with
    | silent before after =>
      obtain ⟨word', hlate⟩ := course_of_no_statement env opened nested titles after
      rw [hearly, hlate]
      exact ⟨.same [], Nat.le_succ _, Nat.le_succ _⟩
    | begun st before after =>
      obtain ⟨hyield, hstate⟩ := course_of_last env opened nested titles after
      obtain ⟨hrows, hopened, hclosed⟩ := perform_first hnothing titles st
      rw [hearly]
      exact ⟨hyield ▸ hrows, hstate ▸ hopened, hstate ▸ hclosed⟩
    | behind st rest before after => cases hst.symm.trans before
    | changed st st' before after sort => cases hst.symm.trans before
  | some t st rest hst ih =>
    cases statement?_snoc t c with
    | silent before after => cases hst.symm.trans before
    | begun st' before after => cases hst.symm.trans before
    | behind st' rest' before after =>
      obtain ⟨rfl, rfl⟩ := Prod.mk.inj (Option.some.inj (hst.symm.trans before))
      rw [course_of_statement env opened nested titles hst,
        course_of_statement env opened nested titles after]
      cases halt : (perform env opened nested titles st).halt with
      | some h =>
        -- a reading that has halted does not come to the character:
        simp only [resume, halt]
        exact ⟨.same _, Nat.le_succ _, Nat.le_succ _⟩
      | none =>
        simp only [resume, halt]
        rw [perform_seeks env opened nested titles st halt]
        exact (ih _).after _
    | changed st' st'' before after sort =>
      obtain ⟨rfl, rfl⟩ := Prod.mk.inj (Option.some.inj (hst.symm.trans before))
      obtain ⟨hyield, hstate⟩ := course_of_last env opened nested titles hst
      obtain ⟨hyield', hstate'⟩ := course_of_last env opened nested titles after
      obtain ⟨hrows, hopened⟩ := perform_sameSort hnothing titles sort
      refine ⟨?_, ?_, ?_⟩ <;> simp only [hyield, hyield', hstate, hstate', hopened]
      · exact hrows
      · exact Nat.le_succ _
      · exact Nat.le_succ _

/-! ### Imports of empty documents -/

theorem importing_standIn (hlibrary : env.library = .standIn) {path source : Text}
    (fetch : env.library.fetch path = .ok source) :
    (importing env opened path source).yield.rows = [] ∧
      (importing env opened path source).halt = none := by
  rw [hlibrary] at fetch
  obtain rfl : [] = source := Except.ok.inj fetch
  have hcourse := course_seeking_nil env (path :: opened)
    (fun path' source => readWithin env 0 (path' :: path :: opened) source) [] []
  rw [importing, hlibrary]
  constructor
  · exact (Grammar.rows_tolerate env _).trans (congrArg (fun r => r.yield.rows) hcourse)
  · refine (Grammar.halt_tolerate env _).trans ?_
    have hhalt := congrArg (fun r => r.halt) hcourse
    change (run env (path :: opened) _ 0 .initial []).halt = none at hhalt
    rw [hhalt]

theorem importsNothing_standIn (hlibrary : env.library = .standIn) :
    ImportsNothing env opened (importing env opened) := by
  intro s directive
  obtain ⟨o, ho, hcase⟩ := addImport_cases env opened (importing env opened) s directive
  rw [ho]
  cases hcase with
  | read path source target notOpen fetch halt =>
    have hrows : (importing env opened path source).yield.rows = [] :=
      (importing_standIn hlibrary fetch).1
    exact congrArg (Outline.shift s.depth) hrows
  | noTarget | cycle | unreadable | halted => rfl

theorem halt_read_standIn {folder : Text} (hroot : env.root = .ok folder)
    (hlibrary : env.library = .standIn) (htolerant : env.strict = false) (source : Text) :
    (env.read opened source).halt = none := by
  refine halt_readWithin_tolerant htolerant hroot fun hdeep => ?_
  obtain ⟨s, directive, himport⟩ := exists_import_of_halt env opened hdeep
  obtain ⟨o, ho, hcase⟩ := addImport_cases env opened (importing env opened) s directive
  change (addImport env opened (importing env opened) s directive).halt = _ at himport
  rw [ho] at himport
  cases hcase with
  | noTarget h target =>
    cases himport
    rcases Import.error_of_target target with ⟨t, heq⟩ | ⟨fault, heq⟩ <;> cases heq
  | halted path source h target notOpen fetch halt =>
    cases halt.symm.trans (importing_standIn hlibrary fetch).2
  | cycle | unreadable | read => cases himport

end Reader

/-- **One more character changes an outline only at its end.** The library stands in for a missing
one, so every imported document is empty, and the reader is tolerant. Then both readings get to the
end of their documents, and

* the outline of the longer one is the same, or has one row more, or its last row has another value
  at the same depth and of the same kind;
* one section more or less is open at its end, or as many. -/
theorem one_character_more (settings : Settings) (root : Text) (opened : List Text) (t : Text)
    (c : Char) :
    let env := { settings with root := .ok root, library := .standIn, strict := false }
    let early := env.read opened t
    let late := env.read opened (t ++ [c])
    early.halt = none ∧ late.halt = none ∧
      (Outline.rowsOfAll 0 early.tree).Grown (Outline.rowsOfAll 0 late.tree) ∧
      late.state.opened.length ≤ early.state.opened.length + 1 ∧
      early.state.opened.length ≤ late.state.opened.length + 1 := by
  intro env early late
  have hhalt (source : Text) : (env.read opened source).halt = none :=
    Reader.halt_read_standIn rfl rfl rfl source
  have hnothing : Reader.ImportsNothing env opened (Reader.importing env opened) :=
    Reader.importsNothing_standIn rfl
  have hcontinued := Reader.course_snoc hnothing t c []
  refine ⟨hhalt t, hhalt (t ++ [c]), ?_, ?_, ?_⟩
  · rw [Grammar.rows_read_course, Grammar.rows_read_course]
    exact hcontinued.rows
  · rw [Reader.state_read, Reader.state_read]
    exact hcontinued.opened
  · rw [Reader.state_read, Reader.state_read]
    exact hcontinued.closed

end Vitae
