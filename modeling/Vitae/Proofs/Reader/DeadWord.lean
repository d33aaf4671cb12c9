import Mathlib.Algebra.Order.BigOperators.Group.List
import Mathlib.Algebra.Order.Group.Nat
import Vitae.Instant.Reading
import Vitae.Proofs.Import.Target
import Vitae.Proofs.Outline.Rendering
import Vitae.Proofs.Reader.Growth
import Vitae.Proofs.Reader.Keyword

/-!
# Words that end a document

Between constructs the reader only ever extends a word until it is a keyword. A word that begins no
keyword never becomes one, so nothing behind it is read (`Reader.course_append_of_dead`). Behind a
word that begins a keyword the document can go on, and one more node can be added; only imports may
be unable to add a single one (`Reader.exists_one_more`).

Both rest on where a reading can end between constructs (`Reader.EndsBetween`): behind a word, which
what follows goes on with, or behind a statement that the end of the text has completed, which what
follows can still belong to. The statements before that stay as they are, whatever follows
(`Reader.statement?_append`).
-/

namespace Vitae

namespace Reader

open Text

variable {env : Settings} {opened : List Text} {nested : Text → Text → Reading}
variable {t u v word keyword rest : Text} {titles titles' : List Text} {st : Statement}

/-! ### The word at the end of a text -/

variable (env opened nested) in
theorem course_append_of_no_keyword (titles : List Text) (h : keyword? word t = none) (v : Text) :
    course env opened nested ⟨.seeking word, titles⟩ (t ++ v) =
      course env opened nested ⟨.seeking (word ++ solid t), titles⟩ v := by
  fun_induction keyword? word t with
  | case1 => simp [solid]
  | case2 word c t hc ih =>
    rw [List.cons_append, course_seeking_cons, collect, if_pos hc, ih h]
    simp [solid, hc]
  | case3 word c t hc hmem => cases h
  | case4 word c t hc hmem ih =>
    simp only [List.cons_append, course_seeking_cons, collect, if_neg hc, if_neg hmem]
    rw [ih h]
    simp [solid, hc]

variable (env opened nested) in
theorem course_eq_of_no_keyword (titles : List Text) (h : keyword? word t = none) :
    course env opened nested ⟨.seeking word, titles⟩ t =
      ⟨.empty, ⟨.seeking (word ++ solid t), titles⟩, 0, none⟩ := by
  have hcourse := course_append_of_no_keyword env opened nested titles h []
  rwa [List.append_nil, course_seeking_nil] at hcourse

theorem notMem_keywords_of_no_keyword (hword : word ∉ keywords) (h : keyword? word t = none) :
    word ++ solid t ∉ keywords := by
  fun_induction keyword? word t with
  | case1 => simpa [solid] using hword
  | case2 word c t hc ih => simpa [solid, hc] using ih hword h
  | case3 word c t hc hmem => cases h
  | case4 word c t hc hmem ih => simpa [solid, hc] using ih hmem h

theorem course_of_spelled (titles : List Text) (h : keyword? word t = some (keyword, rest)) :
    course env opened nested ⟨.seeking word, titles⟩ t =
      course env opened nested ⟨.seeking [], titles⟩ (keyword ++ rest) := by
  rw [course_of_keyword env opened nested titles h,
    course_of_keyword env opened nested titles (keyword?_append (keyword?_mem h) rest)]

theorem solid_keyword (hk : keyword ∈ keywords) : solid keyword = keyword := by
  obtain ⟨x, hx, hsolid⟩ := keyword?_spells (keyword?_append hk [])
  obtain rfl : keyword = x := by simpa using hx
  exact hsolid.symm

theorem keyword?_complete (hu : u ≠ []) (hk : word ++ u ∈ keywords) (v : Text) :
    keyword? word (u ++ v) = some (word ++ u, v) := by
  induction u generalizing word with
  | nil => exact absurd rfl hu
  | cons c u ih =>
    have hc : ¬isBlank c = true := by
      have hmem : c ∈ solid (word ++ c :: u) := by simp [solid_keyword hk]
      simpa using (List.mem_filter.1 hmem).2
    by_cases hmem : word ++ [c] ∈ keywords
    · have hinfix : word ++ [c] <:+: word ++ c :: u := ⟨[], u, by simp⟩
      have heq := eq_of_infix_keyword _ hmem _ hk hinfix
      obtain rfl : u = [] := by simpa using heq.symm
      rw [List.cons_append, keyword?, if_neg hc, if_pos hmem, List.nil_append]
    · have hne : u ≠ [] := by
        rintro rfl
        exact hmem hk
      rw [List.cons_append, keyword?, if_neg hc, if_neg hmem, ih hne (by simpa using hk)]
      simp

/-! ### Where a reading ends between constructs -/

theorem statement?_append (h : statement? t = some (st, rest)) (hrest : rest ≠ []) (v : Text) :
    statement? (t ++ v) = some (st, rest ++ v) := by
  induction v using List.reverseRecOn with
  | nil => rwa [List.append_nil, List.append_nil]
  | append_singleton v c ih =>
    rw [← List.append_assoc, ← List.append_assoc]
    cases statement?_snoc (t ++ v) c with
    | silent before => cases ih.symm.trans before
    | begun st' before => cases ih.symm.trans before
    | behind st' rest' before after =>
      obtain ⟨rfl, rfl⟩ := Prod.mk.inj (Option.some.inj (ih.symm.trans before))
      exact after
    | changed st' st'' before =>
      have hnil := (Prod.mk.inj (Option.some.inj (ih.symm.trans before))).2
      exact absurd (List.append_eq_nil_iff.1 hnil).1 hrest

/-- A statement that halts is an import. It leaves the reader in its directive and adds nothing. -/
theorem perform_of_halt {h : Halt}
    (halt : (perform env opened nested titles st).halt = some h) :
    (perform env opened nested titles st).state.phase = .filling .directive [] ∧
      (perform env opened nested titles st).yield.rows = [] := by
  cases st with
  | inclusion directive =>
    obtain ⟨o, ho, hcase⟩ := addImport_cases env opened nested ⟨.seeking [], titles⟩ directive
    rw [perform, ho] at halt ⊢
    cases hcase with
    | read => cases halt
    | noTarget | cycle | unreadable | halted => exact ⟨rfl, rfl⟩
  | heading | label | block | close | idle => cases halt

variable (env opened nested) in
theorem course_behind (titles : List Text) (hst : statement? t = some (st, rest))
    (halt : (perform env opened nested titles st).halt = none) :
    course env opened nested ⟨.seeking [], titles⟩ t =
      (course env opened nested ⟨.seeking [], (perform env opened nested titles st).state.opened⟩
        rest).after (perform env opened nested titles st).yield := by
  rw [course_of_statement env opened nested titles hst]
  simp only [resume, halt]
  rw [perform_seeks env opened nested titles st halt]

variable (env opened nested) in
/-- Where the reader is when a text from between the constructs has ended between them again. -/
inductive EndsBetween (titles : List Text) (t word : Text) (titles' : List Text) : Prop
  /-- Behind some characters that are no keyword, if there are any. What follows goes on from
  there. -/
  | behindWord (y : Yield) (fresh : word ∉ keywords)
    (goes : ∀ v, course env opened nested ⟨.seeking [], titles⟩ (t ++ v) =
      (course env opened nested ⟨.seeking word, titles'⟩ v).after y)
  /-- Behind a statement that the end of the text completes. What follows can still belong to it. -/
  | behindStatement (y : Yield) (titles₁ : List Text) (u : Text) (st : Statement)
    (wordless : word = []) (last : statement? u = some (st, []))
    (halt : (perform env opened nested titles₁ st).halt = none)
    (goes : ∀ v, course env opened nested ⟨.seeking [], titles⟩ (t ++ v) =
      (course env opened nested ⟨.seeking [], titles₁⟩ (u ++ v)).after y)

theorem endsBetween_of_state
    (h : (course env opened nested ⟨.seeking [], titles⟩ t).state = ⟨.seeking word, titles'⟩) :
    EndsBetween env opened nested titles t word titles' := by
  induction t using statement_induction generalizing titles with
  | none t hst =>
    have hnone : keyword? [] t = none := Option.map_eq_none_iff.1 hst
    rw [course_eq_of_no_keyword env opened nested titles hnone] at h
    cases h
    exact .behindWord .empty (notMem_keywords_of_no_keyword (by decide) hnone)
      (course_append_of_no_keyword env opened nested _ hnone)
  | some t st rest hst ih =>
    cases halt : (perform env opened nested titles st).halt with
    | some h' =>
      have hphase := (perform_of_halt halt).1
      rw [course_of_statement env opened nested titles hst] at h
      simp only [resume, halt] at h
      rw [h] at hphase
      cases hphase
    | none =>
      rw [course_behind env opened nested titles hst halt] at h
      by_cases hrest : rest = []
      -- the last statement is not settled yet, those before it are
      · subst hrest
        rw [course_seeking_nil] at h
        cases h
        exact .behindStatement .empty titles t st rfl hst halt fun v => rfl
      · have hgoes (v : Text) :=
          course_behind env opened nested titles (statement?_append hst hrest v) halt
        cases ih h with
        | behindWord y fresh goes =>
          exact .behindWord _ fresh fun v => by rw [hgoes, goes, Reading.after_after]
        | behindStatement y titles₁ u st' wordless last halt' goes =>
          exact .behindStatement _ titles₁ u st' wordless last halt' fun v => by
            rw [hgoes, goes, Reading.after_after]

/-! ### Dead words -/

variable (word) in
/-- The word begins no keyword. -/
def Dead : Prop :=
  ∀ k ∈ keywords, ¬word <+: k

/-- **Behind a dead word nothing is read any more.** -/
theorem course_append_of_dead
    (h : (course env opened nested ⟨.seeking [], titles⟩ t).state = ⟨.seeking word, titles'⟩)
    (hdead : Dead word) (v : Text) :
    course env opened nested ⟨.seeking [], titles⟩ (t ++ v) =
      ⟨(course env opened nested ⟨.seeking [], titles⟩ t).yield,
        ⟨.seeking (word ++ solid v), titles'⟩, 0, none⟩ := by
  cases endsBetween_of_state h with
  | behindStatement y titles₁ u st wordless =>
    exact absurd (wordless ▸ List.nil_prefix) (hdead "end".toList (by decide))
  | behindWord y fresh goes =>
    have hend := goes []
    rw [List.append_nil, course_seeking_nil] at hend
    have hnone : keyword? word v = none := keyword?_of_dead hdead v
    rw [goes, course_eq_of_no_keyword env opened nested titles' hnone, hend]
    rfl

/-! ### One more node -/

variable (env opened nested) in
/-- The number of nodes that a text between constructs adds. -/
def adds (titles : List Text) (t : Text) : Nat :=
  (course env opened nested ⟨.seeking [], titles⟩ t).yield.rows.length

/-- The reading yields so many nodes, and it does not halt. -/
structure Yields (r : Reading) (n : Nat) : Prop where
  halt : r.halt = none
  length_rows : r.yield.rows.length = n

theorem length_rows_after (y : Yield) (r : Reading) :
    (r.after y).yield.rows.length = y.rows.length + r.yield.rows.length := by
  rw [Reading.yield_after, Yield.rows_append, List.length_append]

theorem Yields.after {r : Reading} {n : Nat} (h : Yields r n) (y : Yield) :
    Yields (r.after y) (y.rows.length + n) :=
  ⟨h.halt, by rw [length_rows_after, h.length_rows]⟩

variable (env opened nested) in
theorem yields_nil (titles : List Text) :
    Yields (course env opened nested ⟨.seeking [], titles⟩ []) 0 := by
  rw [course_seeking_nil]
  exact ⟨rfl, rfl⟩

theorem yields_of_statement {n : Nat} (hst : statement? t = some (st, rest))
    (halt : (perform env opened nested titles st).halt = none)
    (h : Yields (course env opened nested
      ⟨.seeking [], (perform env opened nested titles st).state.opened⟩ rest) n) :
    Yields (course env opened nested ⟨.seeking [], titles⟩ t)
      ((perform env opened nested titles st).yield.rows.length + n) := by
  rw [course_behind env opened nested titles hst halt]
  exact h.after _

variable (env opened nested) in
theorem yields_label (titles : List Text) {b : Text} (hb : AllBlank b) :
    Yields (course env opened nested ⟨.seeking [], titles⟩ (b ++ "label".toList)) 1 := by
  have hst : statement? (b ++ "label".toList) = some (.label [] [], []) := by
    rw [statement?_blank_append hb]
    rfl
  exact yields_of_statement hst rfl (yields_nil env opened nested _)

variable (env opened nested) in
/-- Behind every keyword but that of imports, something adds a node. -/
theorem exists_yields_one (titles : List Text) {k : Text} (hk : k ∈ keywords)
    (himport : k ≠ "@import".toList) :
    ∃ v, Yields (course env opened nested ⟨.seeking [], titles⟩ (k ++ v)) 1 := by
  have hstart {st : Statement} (hst : statement? (k ++ []) = some (st, []))
      (halt : (perform env opened nested titles st).halt = none)
      (hrow : (perform env opened nested titles st).yield.rows.length = 1) :
      ∃ v, Yields (course env opened nested ⟨.seeking [], titles⟩ (k ++ v)) 1 :=
    ⟨_, hrow ▸ yields_of_statement hst halt (yields_nil env opened nested _)⟩
  have hempty {st : Statement} (hst : statement? (k ++ "label".toList) = some (st, "label".toList))
      (halt : (perform env opened nested titles st).halt = none)
      (hrow : (perform env opened nested titles st).yield.rows.length = 0) :
      ∃ v, Yields (course env opened nested ⟨.seeking [], titles⟩ (k ++ v)) 1 := by
    have hlabel := yields_of_statement hst halt (yields_label env opened nested _ allBlank_nil)
    rw [hrow] at hlabel
    exact ⟨_, hlabel⟩
  -- a section, a label and a block are nodes; the others leave room for a label
  rcases mem_keywords_iff.1 hk with rfl | rfl | rfl | rfl | rfl | rfl | rfl
  · exact hstart rfl rfl rfl
  · exact hstart rfl rfl rfl
  · exact hempty rfl rfl rfl
  · exact hstart rfl rfl rfl
  · exact hempty rfl rfl rfl
  · exact hempty rfl rfl rfl
  · exact absurd rfl himport

/-! ### Imports -/

variable (env opened nested) in
/-- The directive names a document that is read without a halt and has one node at most. -/
def SmallImport (directive : Text) : Prop :=
  ∃ path source, Import.target env.root directive = .ok path ∧ path ∉ opened ∧
    env.library.fetch path = .ok source ∧ (nested path source).halt = none ∧
      (nested path source).yield.rows.length ≤ 1

theorem length_rows_imported (path : Text) (y : Yield) (d : Nat) :
    (asked env path ++ y.imported d).rows.length = y.rows.length :=
  List.length_map ..

theorem smallImport_iff (titles : List Text) {directive : Text} :
    SmallImport env opened nested directive ↔
      (perform env opened nested titles (.inclusion directive)).halt = none ∧
        (perform env opened nested titles (.inclusion directive)).yield.rows.length ≤ 1 := by
  constructor
  · rintro ⟨path, source, target, notOpen, fetch, halt, hsmall⟩
    rw [perform, addImport_of_notMem env opened nested _ target notOpen, fetch]
    simp only [takeOver, halt, length_rows_imported]
    exact ⟨trivial, hsmall⟩
  · rintro ⟨hhalt, hsmall⟩
    obtain ⟨o, ho, hcase⟩ := addImport_cases env opened nested ⟨.seeking [], titles⟩ directive
    rw [perform, ho] at hhalt hsmall
    cases hcase with
    | read path source target notOpen fetch halt =>
      rw [length_rows_imported] at hsmall
      exact ⟨path, source, target, notOpen, fetch, halt, hsmall⟩
    | noTarget | cycle | unreadable | halted => cases hhalt

variable (env opened nested word) in
/-- Another keyword can follow than that of imports, or there is an import that adds one node at
most. -/
def CanAdd : Prop :=
  word.head? ≠ some '@' ∨ ∃ directive, '\n' ∉ directive ∧ SmallImport env opened nested directive

theorem exists_smallImport_of_adds
    (h : adds env opened nested titles ("@import".toList ++ v) = 1) :
    ∃ directive, '\n' ∉ directive ∧ SmallImport env opened nested directive := by
  have hst : statement? ("@import".toList ++ v) =
      some (.inclusion (before '\n' v), behind '\n' v) := rfl
  refine ⟨before '\n' v, not_mem_before '\n' v, (smallImport_iff titles).2 ?_⟩
  cases halt : (perform env opened nested titles (.inclusion (before '\n' v))).halt with
  | some h' =>
    rw [adds, course_of_statement env opened nested titles hst] at h
    simp only [resume, halt, (perform_of_halt halt).2] at h
    cases h
  | none =>
    rw [adds, course_behind env opened nested titles hst halt, length_rows_after] at h
    exact ⟨rfl, by omega⟩

theorem exists_import_yields_one (titles : List Text) {directive : Text} (hline : '\n' ∉ directive)
    (hsmall : SmallImport env opened nested directive) :
    ∃ v, Yields (course env opened nested ⟨.seeking [], titles⟩ ("@import".toList ++ v)) 1 := by
  obtain ⟨halt, hrows⟩ := (smallImport_iff titles).1 hsmall
  -- an import without nodes leaves room for a label
  rcases Nat.le_one_iff_eq_zero_or_eq_one.1 hrows with hnone | hone
  · have hlabel := yields_of_statement (statement?_inclusion hline) halt
      (yields_label env opened nested _ allBlank_nil)
    rw [hnone] at hlabel
    exact ⟨_, hlabel⟩
  · have halone := yields_of_statement (statement?_inclusion hline) halt
      (yields_nil env opened nested _)
    rw [hone] at halone
    exact ⟨_, halone⟩

/-! ### Statements that the end completes -/

/-- The two statements are the same but for the body of a block. -/
inductive SameButBody : Statement → Statement → Prop
  | refl (st : Statement) : SameButBody st st
  | block (id body : Text) (closed : Bool) (body' : Text) (closed' : Bool) :
    SameButBody (.block id body closed) (.block id body' closed')

theorem SameButBody.perform {st' : Statement} (h : SameButBody st st')
    (halt : (perform env opened nested titles st).halt = none) :
    (perform env opened nested titles st').halt = none ∧
      (perform env opened nested titles st').yield.rows.length =
        (perform env opened nested titles st).yield.rows.length := by
  cases h with
  | refl => exact ⟨halt, rfl⟩
  | block => exact ⟨rfl, rfl⟩

theorem exists_behind_line {r : Text} (hend : behind '\n' r = []) (w : Text) :
    ∃ b, AllBlank b ∧ before '\n' (r ++ '\n' :: w) = before '\n' r ∧
      behind '\n' (r ++ '\n' :: w) = b ++ w := by
  by_cases hmem : '\n' ∈ r
  · exact ⟨['\n'], allBlank_newline, before_append hmem, by rw [behind_append hmem, hend]; rfl⟩
  · exact ⟨[], allBlank_nil, (before_append_cons hmem).trans (before_of_not_mem hmem).symm,
      behind_append_cons hmem⟩

/-- Prose that the end of a text completes is completed by a closing line, or by a newline if its
closing line is there already. -/
theorem exists_behind_prose {q : Text} (hend : (Prose.read q).rest = []) (w : Text) :
    ∃ v b, AllBlank b ∧ (Prose.read (q ++ v)).rest = b ++ w := by
  cases hclosed : (Prose.read q).closed with
  | false =>
    refine ⟨'\n' :: (TextBlock.terminator ++ '\n' :: w), [], allBlank_nil, ?_⟩
    rw [Prose.read_closing hclosed (by decide) (by decide)]
    rfl
  | true =>
    have hopen : (Prose.read (q ++ ['\n'])).closed = true := by
      cases h : (Prose.read (q ++ ['\n'])).closed with
      | true => rfl
      | false => exact (Prose.closed_of_append_blank allBlank_newline h).symm.trans hclosed
    have hrest : AllBlank (Prose.read (q ++ ['\n'])).rest := by
      rcases Prose.read_snoc q '\n' with h | ⟨-, h⟩
      · rw [h, hend]
        exact allBlank_newline
      · rw [h]
        exact allBlank_nil
    refine ⟨['\n'] ++ w, _, hrest, ?_⟩
    rw [← List.append_assoc, Prose.read_append (by simp) hopen]

theorem exists_behind_statementOf (keyword r w : Text) (hend : (statementOf keyword r).2 = []) :
    ∃ v b, AllBlank b ∧ SameButBody (statementOf keyword r).1 (statementOf keyword (r ++ v)).1 ∧
      (statementOf keyword (r ++ v)).2 = b ++ w := by
  unfold statementOf at *
  split_ifs at *
  · obtain ⟨b, hb, hbefore, hbehind⟩ := exists_behind_line hend w
    refine ⟨'\n' :: w, b, hb, ?_, hbehind⟩
    rw [hbefore]
    exact .refl _
  · by_cases hcolon : ':' ∈ r
    · obtain ⟨b, hb, hbefore, hbehind⟩ := exists_behind_line hend w
      refine ⟨'\n' :: w, b, hb, ?_, by rw [behind_append hcolon, hbehind]⟩
      rw [before_append hcolon, behind_append hcolon, hbefore]
      exact .refl _
    · obtain ⟨b, hb, hbefore, hbehind⟩ := exists_behind_line (r := []) rfl w
      refine ⟨':' :: '\n' :: w, b, hb, ?_, by rwa [behind_append_cons hcolon]⟩
      rw [before_append_cons hcolon, behind_append_cons hcolon, before_of_not_mem hcolon,
        behind_of_not_mem hcolon]
      exact .refl _
  · by_cases hcolon : ':' ∈ r
    · obtain ⟨v, b, hb, hrest⟩ := exists_behind_prose hend w
      refine ⟨v, b, hb, ?_, by rwa [behind_append hcolon]⟩
      rw [before_append hcolon]
      exact .block ..
    · obtain ⟨v, b, hb, hrest⟩ := exists_behind_prose (q := []) rfl w
      refine ⟨':' :: v, b, hb, ?_, by rwa [behind_append_cons hcolon]⟩
      rw [before_append_cons hcolon, before_of_not_mem hcolon]
      exact .block ..
  · obtain ⟨b, hb, hbefore, hbehind⟩ := exists_behind_line hend w
    refine ⟨'\n' :: w, b, hb, ?_, hbehind⟩
    rw [hbefore]
    exact .refl _
  · exact ⟨w, [], allBlank_nil, .refl _, congrArg (· ++ w) hend⟩
  · exact ⟨w, [], allBlank_nil, .refl _, congrArg (· ++ w) hend⟩

theorem exists_yields_one_more (hst : statement? t = some (st, []))
    (halt : (perform env opened nested titles st).halt = none) :
    ∃ v, Yields (course env opened nested ⟨.seeking [], titles⟩ (t ++ v))
      (adds env opened nested titles t + 1) := by
  obtain ⟨⟨keyword, r⟩, hk, hlast⟩ := Option.map_eq_some_iff.1 hst
  obtain ⟨v, b, hb, hsame, hrest⟩ := exists_behind_statementOf keyword r "label".toList
    (congrArg Prod.snd hlast)
  have hst' : statement? (t ++ v) =
      some ((statementOf keyword (r ++ v)).1, b ++ "label".toList) := by
    rw [statement?, keyword?_append_of_some hk, Option.map_some, ← hrest]
  rw [hlast] at hsame
  obtain ⟨halt', hrows⟩ := hsame.perform halt
  have hnow := (yields_of_statement hst halt (yields_nil env opened nested _)).length_rows
  have hmore := yields_of_statement hst' halt' (yields_label env opened nested _ hb)
  rw [hrows] at hmore
  rw [adds, hnow]
  exact ⟨v, hmore⟩

/-! ### Living words -/

theorem head?_of_begins {word k : Text} (h : word <+: k) (hword : word ≠ []) :
    k.head? = word.head? := by
  obtain ⟨u, rfl⟩ := h
  exact List.head?_append_of_ne_nil word hword

theorem canAdd_of_course
    (h : (course env opened nested ⟨.seeking word, titles⟩ v).yield.rows.length = 1) :
    CanAdd env opened nested word := by
  refine or_iff_not_imp_left.2 fun hhead => ?_
  rw [not_not] at hhead
  cases hspell : keyword? word v with
  | none =>
    rw [course_eq_of_no_keyword env opened nested titles hspell] at h
    cases h
  | some cut =>
    obtain ⟨keyword, rest⟩ := cut
    have honly : ∀ k ∈ keywords, k.head? = some '@' → k = "@import".toList := by decide
    have hne : word ≠ [] := by
      rintro rfl
      cases hhead
    obtain rfl := honly keyword (keyword?_mem hspell)
      ((head?_of_begins (prefix_of_keyword? hspell) hne).trans hhead)
    rw [course_of_spelled titles hspell] at h
    exact exists_smallImport_of_adds h

theorem exists_spelled_yields_one (titles : List Text) (fresh : word ∉ keywords)
    (hlive : ∃ k ∈ keywords, word <+: k) (h : CanAdd env opened nested word) :
    ∃ v, Yields (course env opened nested ⟨.seeking word, titles⟩ v) 1 := by
  by_cases hword : word = []
  · subst hword
    have hlabel : "label".toList ∈ keywords := by decide
    obtain ⟨v, hv⟩ := exists_yields_one env opened nested titles hlabel (by decide)
    exact ⟨_, hv⟩
  · obtain ⟨k, hk, u, rfl⟩ := hlive
    have hu : u ≠ [] := by
      rintro rfl
      exact fresh (by simpa using hk)
    have hone : ∃ v, Yields (course env opened nested ⟨.seeking [], titles⟩ (word ++ u ++ v)) 1 := by
      by_cases himport : word ++ u = "@import".toList
      · rw [himport]
        rcases h with hhead | ⟨directive, hline, hsmall⟩
        · have hat := head?_of_begins (List.prefix_append word u) hword
          rw [himport] at hat
          exact absurd hat.symm hhead
        · exact exists_import_yields_one titles hline hsmall
      · exact exists_yields_one env opened nested titles hk himport
    obtain ⟨v, hv⟩ := hone
    refine ⟨u ++ v, ?_⟩
    rw [course_of_spelled titles (keyword?_complete hu hk v)]
    exact hv

/-- What adds one more node behind a text does so from the word at its end on. -/
theorem canAdd_of_one_more
    (h : (course env opened nested ⟨.seeking [], titles⟩ t).state = ⟨.seeking word, titles'⟩)
    (hv : adds env opened nested titles (t ++ v) = adds env opened nested titles t + 1) :
    CanAdd env opened nested word := by
  cases endsBetween_of_state h with
  | behindStatement y titles₁ u st wordless => exact .inl (by simp [wordless])
  | behindWord y fresh goes =>
    have hnow := goes []
    rw [List.append_nil, course_seeking_nil] at hnow
    rw [adds, adds, hnow, goes, length_rows_after, length_rows_after] at hv
    exact canAdd_of_course (Nat.add_left_cancel hv)

/-- **Behind a word that begins a keyword something adds one more node**, unless only an import can
follow: then some import must be able to. -/
theorem exists_one_more
    (h : (course env opened nested ⟨.seeking [], titles⟩ t).state = ⟨.seeking word, titles'⟩)
    (hlive : ∃ k ∈ keywords, word <+: k) (hadd : CanAdd env opened nested word) :
    ∃ v, Yields (course env opened nested ⟨.seeking [], titles⟩ (t ++ v))
      (adds env opened nested titles t + 1) := by
  cases endsBetween_of_state h with
  | behindStatement y titles₁ u st wordless last halt goes =>
    have hnow := goes []
    rw [List.append_nil, List.append_nil] at hnow
    obtain ⟨v, hv⟩ := exists_yields_one_more last halt
    refine ⟨v, ?_⟩
    rw [goes, adds, hnow, length_rows_after, Nat.add_assoc]
    exact hv.after y
  | behindWord y fresh goes =>
    have hnow := goes []
    rw [List.append_nil, course_seeking_nil] at hnow
    obtain ⟨v, hv⟩ := exists_spelled_yields_one titles' fresh hlive hadd
    refine ⟨v, ?_⟩
    rw [goes, adds, hnow, length_rows_after]
    exact hv.after y

/-! ### Imports of empty documents -/

/-- Below every root folder there is a document that is not being read. -/
theorem exists_fresh_target (folder : Text) (opened : List Text) :
    ∃ directive path, '\n' ∉ directive ∧ Import.target (.ok folder) directive = .ok path ∧
      path ∉ opened := by
  -- a name with more letters `x` than all open documents have together
  let n := (opened.map (·.count 'x')).sum + 1
  let name := List.replicate n 'x'
  have hquotes : Import.Quotes (Writer.inQuotes name) name := by
    simpa using Import.quotes_of_blanks allBlank_nil allBlank_nil name
  refine ⟨Writer.inQuotes name, _, ?_, hquotes.target folder, fun hopen => ?_⟩
  · simp [Writer.inQuotes, name]
  · have hmem := List.mem_map_of_mem (f := (·.count 'x')) hopen
    have hle : _ ≤ (opened.map (·.count 'x')).sum := List.le_sum_of_mem hmem
    rw [Path.count_join (by decide) (by decide), Path.count_normalize (by decide),
      List.count_replicate_self] at hle
    omega

theorem exists_smallImport_standIn {folder : Text} (hroot : env.root = .ok folder)
    (hlibrary : env.library = .standIn) (opened : List Text) :
    ∃ directive, '\n' ∉ directive ∧ SmallImport env opened (importing env opened) directive := by
  obtain ⟨directive, path, hline, htarget, hfresh⟩ := exists_fresh_target folder opened
  have hfetch : env.library.fetch path = .ok [] := by
    rw [hlibrary]
    rfl
  obtain ⟨hrows, halt⟩ : (importing env opened path []).yield.rows = [] ∧
      (importing env opened path []).halt = none := importing_standIn hlibrary hfetch
  refine ⟨directive, hline, path, [], hroot ▸ htarget, hfresh, hfetch, halt, ?_⟩
  rw [hrows]
  exact Nat.zero_le 1

/-! ### Documents -/

variable (env) in
theorem length_rows_readWithin (levels : Nat) (opened : List Text) (source : Text) :
    (readWithin env levels opened source).yield.rows.length =
      (Node.walkAll (readWithin env levels opened source).tree).length := by
  have hrows := (Grammar.readWithin_document env levels opened source).1
  have hlength := congrArg List.length
    (Outline.map_value_rowsOfAll 0 (Grammar.document env levels opened source).1)
  rw [List.length_map, List.length_map] at hlength
  rw [Reading.tree, hrows, Outline.forest_rowsOfAll, hlength]

variable (env) in
theorem length_rows_importing (opened : List Text) (path source : Text) :
    (importing env opened path source).yield.rows.length =
      (Node.walkAll (importing env opened path source).tree).length :=
  length_rows_readWithin env env.library.nesting (path :: opened) source

theorem length_walkAll_read (opened : List Text) (source : Text) :
    (Node.walkAll (env.read opened source).tree).length =
      adds env opened (importing env opened) [] source := by
  have hlength := length_rows_readWithin env (env.library.nesting + 1) opened source
  rw [← Settings.read, rows_read_eq] at hlength
  exact hlength.symm

theorem read_of_stop?_eq_none {source : Text} (h : env.stop? opened source = none) :
    (env.read opened source).unplaced =
      course env opened (importing env opened) .initial source := by
  rw [read_unplaced, tolerate, ← stop?_eq_course, h]

variable {p r : Text}

theorem canAdd_of_one_more_node (h : (env.read opened p).state = ⟨.seeking word, titles⟩)
    (hr : (Node.walkAll (env.read opened (p ++ r)).tree).length =
      (Node.walkAll (env.read opened p).tree).length + 1) :
    CanAdd env opened (importing env opened) word := by
  have hstate := (state_read env opened p).symm.trans h
  rw [length_walkAll_read, length_walkAll_read] at hr
  exact canAdd_of_one_more hstate hr

theorem exists_one_more_node (h : (env.read opened p).state = ⟨.seeking word, titles⟩)
    (hlive : ∃ k ∈ keywords, word <+: k) (hadd : CanAdd env opened (importing env opened) word) :
    ∃ r, (Node.walkAll (env.read opened (p ++ r)).tree).length =
        (Node.walkAll (env.read opened p).tree).length + 1 ∧
      env.stop? opened (p ++ r) = none := by
  have hstate := (state_read env opened p).symm.trans h
  simp only [length_walkAll_read]
  obtain ⟨r, halt, hrows⟩ := exists_one_more hstate hlive hadd
  exact ⟨r, hrows, halt⟩

end Reader

open Reader Text

/-- **The word at the end of a document decides how the document can go on.** Between constructs:

* Behind a word that begins no keyword nothing is read any more. Whatever is written there, the tree,
  the calls and the remarks stay as they are, the same sections are open, and nothing stops the
  reader. Only the word becomes longer.
* Behind a word that begins a keyword, if only the empty one, something adds one more node without
  stopping the reader. Where the word begins with the `@` of imports, this takes an import that is
  not refused and that has one node at most, and nothing else adds one either. With no library given
  there always is such an import, since every document is empty then. -/
theorem word_decides_continuation (env : Settings) (opened : List Text) (p : Text) {word : Text}
    {titles : List Text} (h : (env.read opened p).state = ⟨.seeking word, titles⟩) :
    ((∀ k ∈ keywords, ¬word <+: k) → ∀ r,
      (env.read opened (p ++ r)).tree = (env.read opened p).tree ∧
      (env.read opened (p ++ r)).yield = (env.read opened p).yield ∧
      (env.read opened (p ++ r)).state = ⟨.seeking (word ++ solid r), titles⟩ ∧
      (env.read opened (p ++ r)).state.place = (env.read opened p).state.place ∧
      env.stop? opened p = none ∧ env.stop? opened (p ++ r) = none) ∧
    ((∃ k ∈ keywords, word <+: k) →
      let AddsOne (r : Text) : Prop := (Node.walkAll (env.read opened (p ++ r)).tree).length =
        (Node.walkAll (env.read opened p).tree).length + 1
      ((∃ r, AddsOne r ∧ env.stop? opened (p ++ r) = none) ↔
        word.head? ≠ some '@' ∨ ∃ directive, '\n' ∉ directive ∧ ∃ path source,
          Import.target env.root directive = .ok path ∧ path ∉ opened ∧
          env.library.fetch path = .ok source ∧ (importing env opened path source).halt = none ∧
          (Node.walkAll (importing env opened path source).tree).length ≤ 1) ∧
      ((∃ r, AddsOne r) → ∃ r, AddsOne r ∧ env.stop? opened (p ++ r) = none) ∧
      ∀ folder, env.root = .ok folder → env.library = .standIn →
        ∃ r, AddsOne r ∧ env.stop? opened (p ++ r) = none) := by
  constructor
  · intro hdead r
    have hstate := (state_read env opened p).symm.trans h
    have hnow := course_append_of_dead hstate hdead []
    have hlater := course_append_of_dead hstate hdead r
    rw [List.append_nil] at hnow
    have hstop : env.stop? opened p = none := (congrArg Reading.halt hnow :)
    have hstop' : env.stop? opened (p ++ r) = none := (congrArg Reading.halt hlater :)
    have hyield : (env.read opened (p ++ r)).yield = (env.read opened p).yield := by
      have hread := congrArg Reading.yield (read_of_stop?_eq_none hstop)
      have hread' := congrArg Reading.yield (read_of_stop?_eq_none hstop')
      exact hread'.trans ((congrArg Reading.yield hlater).trans hread.symm)
    have hstate' : (env.read opened (p ++ r)).state = ⟨.seeking (word ++ solid r), titles⟩ :=
      (state_read env opened (p ++ r)).trans (congrArg Reading.state hlater)
    refine ⟨?_, hyield, hstate', ?_, hstop, hstop'⟩
    · rw [Reading.tree, Reading.tree, hyield]
    · rw [hstate', h]
      rfl
  · intro hlive AddsOne
    simp only [← length_rows_importing]
    refine ⟨⟨?_, exists_one_more_node h hlive⟩, ?_, fun folder hroot hlibrary => ?_⟩
    · rintro ⟨r, hr, -⟩
      exact canAdd_of_one_more_node h hr
    · rintro ⟨r, hr⟩
      exact exists_one_more_node h hlive (canAdd_of_one_more_node h hr)
    · exact exists_one_more_node h hlive (.inr (exists_smallImport_standIn hroot hlibrary opened))

/-- A word that only an import can follow, within a section, and a document that fits. -/
theorem word_decides_continuation_import :
    let env := { Settings.standard (Instant.read? 2026) id with
      library := .ofList [("./f.resume".toList, "label a:b".toList)] }
    let p := "section S\n@im".toList
    (env.read [] p).state = ⟨.seeking "@im".toList, ["S".toList]⟩ ∧
      ∃ r, (Node.walkAll (env.read [] (p ++ r)).tree).length =
          (Node.walkAll (env.read [] p).tree).length + 1 ∧
        env.stop? [] (p ++ r) = none := by
  intro env p
  have hstate : (env.read [] p).state = ⟨.seeking "@im".toList, ["S".toList]⟩ := by decide +kernel
  obtain ⟨-, hlive⟩ := word_decides_continuation env [] p hstate
  refine ⟨hstate, (hlive ⟨"@import".toList, by decide, by decide⟩).1.2 (.inr ?_)⟩
  refine ⟨"\"f\"".toList, by decide, "./f.resume".toList, "label a:b".toList, by decide +kernel,
    List.not_mem_nil, rfl, ?_, ?_⟩
  · decide +kernel
  · decide +kernel

/-- Where no import can be read, a document that ends with an `@` gets no further node. -/
theorem no_node_behind_at :
    let env := { Settings.standard (Instant.read? 2026) id with library := .ofList [] }
    env.stop? [] ['@'] = none ∧ (env.read [] ['@']).state = ⟨.seeking ['@'], []⟩ ∧
      (∃ k ∈ keywords, ['@'] <+: k) ∧
      ¬∃ r, (Node.walkAll (env.read [] (['@'] ++ r)).tree).length =
        (Node.walkAll (env.read [] ['@']).tree).length + 1 := by
  intro env
  have hstate : (env.read [] ['@']).state = ⟨.seeking ['@'], []⟩ := by decide +kernel
  refine ⟨by decide +kernel, hstate, ⟨"@import".toList, by decide, by decide⟩, ?_⟩
  rintro ⟨r, hr⟩
  rcases canAdd_of_one_more_node hstate hr with hhead | ⟨directive, -, path, source, -, -, hfetch, -⟩
  · exact hhead rfl
  · cases hfetch

end Vitae
