import Vitae.Proofs.Reader.Course
import Vitae.Proofs.Reader.Prose

/-!
# Statements

Between constructs a document is a row of statements: a keyword and what belongs to it.
`Reader.statement?` cuts the first statement off a text, and `Reader.perform` says what it does to
the open sections and what it yields. The character machine does the same
(`Reader.course_of_statement`, `Reader.course_of_no_statement`), so a course can be followed one
statement at a time.
-/

namespace Vitae

/-- A statement of a document. -/
inductive Statement
  /-- A section is opened. -/
  | heading (title : Text)
  /-- A label with its raw identifier and its raw content. -/
  | label (id content : Text)
  /-- A block of prose with its raw identifier and its body, and whether it has a closing line. -/
  | block (id body : Text) (closed : Bool)
  /-- Another document is imported. -/
  | inclusion (directive : Text)
  /-- The innermost section is closed. -/
  | close
  /-- A keyword that means nothing here. -/
  | idle

namespace Reader

open Text

/-! ### Cutting off a statement -/

/-- The keyword that the text spells after the characters of `word`, and what follows it. -/
def keyword? (word : Text) : Text → Option (Text × Text)
  | [] => none
  | c :: t =>
    if isBlank c then keyword? word t
    else if word ++ [c] ∈ keywords then some (word ++ [c], t)
    else keyword? (word ++ [c]) t

/-- The statement that a keyword starts when `t` follows, and what follows the statement. -/
def statementOf (keyword t : Text) : Statement × Text :=
  if keyword = "section".toList then (.heading (trim (before '\n' t)), behind '\n' t)
  else if keyword = "label".toList then
    (.label (before ':' t) (before '\n' (behind ':' t)), behind '\n' (behind ':' t))
  else if keyword = "text".toList then
    let prose := Prose.read (behind ':' t)
    (.block (before ':' t) prose.body prose.closed, prose.rest)
  else if keyword = "@import".toList then (.inclusion (before '\n' t), behind '\n' t)
  else if keyword = "end".toList then (.close, t)
  else (.idle, t)

/-- The first statement of a text, and what follows it. -/
def statement? (t : Text) : Option (Statement × Text) :=
  (keyword? [] t).map fun cut => statementOf cut.1 cut.2

theorem keyword?_mem {word t keyword rest : Text} (h : keyword? word t = some (keyword, rest)) :
    keyword ∈ keywords := by
  fun_induction keyword? word t with
  | case1 => cases h
  | case2 word c t hc ih => exact ih h
  | case3 word c t hc hmem =>
    cases h
    exact hmem
  | case4 word c t hc hmem ih => exact ih h

theorem length_of_keyword? {word t keyword rest : Text}
    (h : keyword? word t = some (keyword, rest)) : rest.length < t.length := by
  fun_induction keyword? word t with
  | case1 => cases h
  | case2 word c t hc ih => exact (ih h).trans (Nat.lt_succ_self _)
  | case3 word c t hc hmem =>
    cases h
    exact Nat.lt_succ_self _
  | case4 word c t hc hmem ih => exact (ih h).trans (Nat.lt_succ_self _)

theorem length_statementOf_le (keyword t : Text) : (statementOf keyword t).2.length ≤ t.length := by
  unfold statementOf
  split_ifs
  · exact length_behind_le '\n' t
  · exact (length_behind_le '\n' _).trans (length_behind_le ':' t)
  · exact (Prose.length_rest_le _).trans (length_behind_le ':' t)
  · exact length_behind_le '\n' t
  · exact le_rfl
  · exact le_rfl

theorem length_of_statement? {t rest : Text} {st : Statement}
    (h : statement? t = some (st, rest)) : rest.length < t.length := by
  obtain ⟨⟨keyword, r⟩, hk, hst⟩ := Option.map_eq_some_iff.1 h
  have hle := length_statementOf_le keyword r
  rw [hst] at hle
  exact hle.trans_lt (length_of_keyword? hk)

/-- Induction along the statements of a text. -/
@[elab_as_elim]
theorem statement_induction {motive : Text → Prop} (none : ∀ t, statement? t = none → motive t)
    (some : ∀ t st rest, statement? t = some (st, rest) → motive rest → motive t) (t : Text) :
    motive t := by
  induction h : t.length using Nat.strong_induction_on generalizing t with
  | _ n ih =>
    cases hst : statement? t with
    | none => exact none t hst
    | some cut =>
      obtain ⟨st, rest⟩ := cut
      exact some t st rest hst (ih _ (h ▸ length_of_statement? hst) rest rfl)

/-! ### What a statement does -/

variable (env : Settings) (opened : List Text) (nested : Text → Text → Reading)

/-- What a statement does when sections with these titles are open. -/
def perform (titles : List Text) : Statement → Outcome
  | .heading title => openSection ⟨.seeking [], titles⟩ title
  | .label id content => addLabel env ⟨.seeking [], titles⟩ id content
  | .block id body closed =>
    { state := ⟨.seeking [], titles⟩
      used := 0
      yield :=
        .noted ((if closed then [] else [.unterminatedBlock (trim id)]) ++ literalRemarks env id) ++
          .called (.render (trimEnd body)) .blockBody ++
          .row ⟨titles.length, Node.blockKind,
            .block (literal env id) (trim body) (env.render (trimEnd body))⟩
      halt := none }
  | .inclusion directive => addImport env opened nested ⟨.seeking [], titles⟩ directive
  | .close => .moved ⟨.seeking [], titles.dropLast⟩
  | .idle => .moved ⟨.seeking [], titles⟩

variable {env opened nested} in
theorem reaches_keyword {word t keyword rest : Text} (titles : List Text)
    (h : keyword? word t = some (keyword, rest)) :
    Reaches env opened nested ⟨.seeking word, titles⟩ t .empty
      (dispatch ⟨.seeking [], titles⟩ keyword) rest := by
  fun_induction keyword? word t with
  | case1 => cases h
  | case2 word c t hc ih =>
    refine .moved (congrArg Outcome.moved ?_) (ih h)
    rw [collect, if_pos hc]
  | case3 word c t hc hmem =>
    cases h
    refine .moved (congrArg Outcome.moved ?_) (.here _ _)
    simp only [collect, if_neg hc, if_pos hmem]
    rfl
  | case4 word c t hc hmem ih =>
    refine .moved (congrArg Outcome.moved ?_) (ih h)
    simp only [collect, if_neg hc, if_neg hmem]

theorem course_of_keyword {word t keyword rest : Text} (titles : List Text)
    (h : keyword? word t = some (keyword, rest)) :
    course env opened nested ⟨.seeking word, titles⟩ t =
      course env opened nested (dispatch ⟨.seeking [], titles⟩ keyword) rest :=
  (reaches_keyword titles h).course_eq

theorem course_of_no_keyword {word t : Text} (titles : List Text) (h : keyword? word t = none) :
    ∃ word', course env opened nested ⟨.seeking word, titles⟩ t =
      ⟨.empty, ⟨.seeking word', titles⟩, 0, none⟩ := by
  fun_induction keyword? word t with
  | case1 word => exact ⟨word, course_seeking_nil env opened nested word titles⟩
  | case2 word c t hc ih =>
    obtain ⟨word', hw⟩ := ih h
    exact ⟨word', by rw [course_seeking_cons, collect, if_pos hc, hw]⟩
  | case3 word c t hc hmem => cases h
  | case4 word c t hc hmem ih =>
    obtain ⟨word', hw⟩ := ih h
    refine ⟨word', ?_⟩
    simp only [course_seeking_cons, collect, if_neg hc, if_neg hmem]
    exact hw

theorem resume_blank_append {b : Text} (hb : AllBlank b) {o : Outcome}
    (ho : o.halt = none → o.state.phase = .seeking []) (rest : Text) :
    resume env opened nested o (b ++ rest) = resume env opened nested o rest := by
  obtain ⟨⟨phase, titles⟩, used, yield, halt⟩ := o
  cases halt with
  | some h => rfl
  | none =>
    obtain rfl : phase = .seeking [] := ho rfl
    simp only [resume, course_blank_append env opened nested hb]

/-- A block is passed over together with what is left of its closing line. -/
theorem course_block (titles : List Text) (t : Text) :
    course env opened nested ⟨.filling .blockId [], titles⟩ t =
      resume env opened nested
        (perform env opened nested titles (.block (before ':' t) (Prose.read (behind ':' t)).body
          (Prose.read (behind ':' t)).closed))
        (Prose.read (behind ':' t)).rest := by
  obtain ⟨hbody, hclosed, b, hb, hrest⟩ := Prose.find_eq (behind ':' t)
  have hfilling := course_filling env opened nested .blockId titles t
  simp only [complete, addBlock, Header.stop, hbody, hclosed, hrest, trim_trimEnd] at hfilling
  rw [hfilling, resume_blank_append env opened nested hb fun _ => rfl]
  rfl

theorem mem_keywords_iff {k : Text} : k ∈ keywords ↔ k = "section".toList ∨ k = "text".toList ∨
    k = "end".toList ∨ k = "label".toList ∨ k = "url".toList ∨ k = "date".toList ∨
    k = "@import".toList := by
  simp only [keywords, List.mem_cons, List.not_mem_nil, or_false]

/-- **The course of a text is its first statement and then the course of what follows.** -/
theorem course_of_statement {t rest : Text} {st : Statement} (titles : List Text)
    (h : statement? t = some (st, rest)) :
    course env opened nested ⟨.seeking [], titles⟩ t =
      resume env opened nested (perform env opened nested titles st) rest := by
  obtain ⟨⟨keyword, r⟩, hk, hst⟩ := Option.map_eq_some_iff.1 h
  rw [course_of_keyword env opened nested titles hk]
  have hfilling (h : Header) := course_filling env opened nested h titles r
  rcases mem_keywords_iff.1 (keyword?_mem hk) with rfl | rfl | rfl | rfl | rfl | rfl | rfl
  · cases hst
    exact hfilling .title
  · cases hst
    exact course_block env opened nested titles r
  · cases hst
    rfl
  · cases hst
    -- the identifier of a label leads to a second header, its content:
    have hcontent := course_filling env opened nested (.labelContent (before ':' r)) titles
      (behind ':' r)
    exact (hfilling .labelId).trans hcontent
  · cases hst
    rfl
  · cases hst
    rfl
  · cases hst
    have hdirective := hfilling .directive
    rw [complete, used_addImport, List.drop_zero] at hdirective
    exact hdirective

theorem perform_seeks (titles : List Text) (st : Statement)
    (h : (perform env opened nested titles st).halt = none) :
    (perform env opened nested titles st).state =
      ⟨.seeking [], (perform env opened nested titles st).state.opened⟩ := by
  cases st with
  | inclusion directive =>
    obtain ⟨o, ho, hcase⟩ := addImport_cases env opened nested ⟨.seeking [], titles⟩ directive
    rw [perform, ho] at h ⊢
    cases hcase with
    | read => rfl
    | noTarget | cycle | unreadable | halted => cases h
  | heading | label | block | close | idle => rfl

/-- **A text without a statement yields nothing.** -/
theorem course_of_no_statement {t : Text} (titles : List Text) (h : statement? t = none) :
    ∃ word, course env opened nested ⟨.seeking [], titles⟩ t =
      ⟨.empty, ⟨.seeking word, titles⟩, 0, none⟩ :=
  course_of_no_keyword env opened nested titles (Option.map_eq_none_iff.1 h)

/-- Only an import makes a reading halt. -/
theorem course_halt {t : Text} {h : Halt} : ∀ {titles : List Text},
    (course env opened nested ⟨.seeking [], titles⟩ t).halt = some h →
      ∃ s directive, (addImport env opened nested s directive).halt = some h := by
  induction t using statement_induction with
  | none t hst =>
    intro titles hh
    obtain ⟨word, hcourse⟩ := course_of_no_statement env opened nested titles hst
    rw [hcourse] at hh
    cases hh
  | some t st rest hst ih =>
    intro titles hh
    rw [course_of_statement env opened nested titles hst] at hh
    cases halt : (perform env opened nested titles st).halt with
    | none =>
      simp only [resume, halt] at hh
      rw [perform_seeks env opened nested titles st halt] at hh
      exact ih hh
    | some h' =>
      simp only [resume, halt] at hh
      cases hh
      cases st with
      | inclusion directive => exact ⟨_, directive, halt⟩
      | heading | label | block | close | idle => cases halt

end Reader

end Vitae
