import Vitae.Instant.Reading
import Vitae.Proofs.Literal.Stage
import Vitae.Proofs.Reader.Keyword
import Vitae.Proofs.Reader.Point

/-!
# Words that are no keywords

A word between constructs that is no keyword stays with the reader: only a keyword sets the collected
word back. If no keyword begins with it, no keyword is found any more and the rest of the document
goes unread. If a keyword does begin with it, the word takes the rest of this keyword from what
follows (`Reader.course_of_word`).

So such a word is ignored only where nothing is left to be lost (`Reader.junk_ignored_iff`). Where it
is not, the readings with and without it differ for good: the end of a keyword can be the beginning
of another, but then the two readings find different literals there (`Reader.silent_of_same_rows`).
-/

namespace Vitae.Reader

open Text

/-! ### What a word takes from what follows -/

variable {env : Settings} {opened : List Text} {nested : Text → Text → Reading}

theorem reaches_word {word j : Text} (hj : ∀ c ∈ j, isBlank c = false) (hword : Incomplete word j)
    (titles : List Text) (t : Text) :
    Reaches env opened nested ⟨.seeking word, titles⟩ (j ++ t) .empty
      ⟨.seeking (word ++ j), titles⟩ t := by
  induction j generalizing word with
  | nil =>
    rw [List.append_nil]
    exact .here _ _
  | cons c j ih =>
    have hrest := ih (fun d hd => hj d (List.mem_cons_of_mem c hd)) hword.tail
    have hc : ¬isBlank c = true := by simp [hj c List.mem_cons_self]
    rw [List.append_assoc, List.singleton_append] at hrest
    refine .moved (congrArg Outcome.moved ?_) hrest
    simp only [collect, if_neg hc, if_neg hword.head]

/-- A word takes the rest of a keyword from what follows, as if the keyword stood there. -/
theorem course_of_word {word t keyword rest : Text} (titles : List Text)
    (h : keyword? word t = some (keyword, rest)) :
    course env opened nested ⟨.seeking word, titles⟩ t =
      course env opened nested ⟨.seeking [], titles⟩ (keyword ++ rest) := by
  have happend := keyword?_append (keyword?_mem h) rest
  rw [course_of_keyword env opened nested titles h,
    course_of_keyword env opened nested titles happend]

variable {titles : List Text} {rest x : Text}

theorem rows_of_headless {k : Text} (hk : k ∈ keywords) (hheader : header? k = none)
    (hrest : keyword? [] rest = none) :
    (course env opened nested ⟨.seeking [], titles⟩ (k ++ rest)).yield.rows = [] := by
  have hdispatch : ∃ titles', dispatch ⟨.seeking [], titles⟩ k = ⟨.seeking [], titles'⟩ := by
    simp only [dispatch, hheader]
    split_ifs
    · exact ⟨_, rfl⟩
    · exact ⟨_, rfl⟩
  obtain ⟨titles', hdispatch⟩ := hdispatch
  rw [course_of_keyword env opened nested titles (keyword?_append hk rest), hdispatch]
  obtain ⟨word, hcourse⟩ := course_of_no_keyword env opened nested titles' hrest
  rw [hcourse]
  rfl

theorem rows_of_malformed (h : (solid (before '\n' rest)).head? ≠ some '"') :
    (course env opened nested ⟨.seeking [], titles⟩ ("@import".toList ++ rest)).yield.rows = [] := by
  have hquote : (trim (before '\n' rest)).head? ≠ some '"' := by rwa [head?_trim]
  have htarget : Import.target env.root (before '\n' rest) =
      .error (.refused (.malformed (trim (before '\n' rest)))) := by
    unfold Import.target
    rw [if_neg hquote]
  have hstatement : statement? ("@import".toList ++ rest) =
      some (.inclusion (before '\n' rest), behind '\n' rest) :=
    statement?_of_keyword (mem_keywords_iff.2 (by simp)) rest
  rw [course_of_statement env opened nested titles hstatement, perform,
    addImport_of_error env opened nested _ htarget]
  rfl

theorem rows_of_label (titles : List Text) (rest : Text) : ∃ content rows,
    (course env opened nested ⟨.seeking [], titles⟩ ("label".toList ++ rest)).yield.rows =
      ⟨titles.length, Node.labelKind, .label (literal env (before ':' rest)) content⟩ :: rows := by
  rw [course_of_statement env opened nested titles
    (statement?_of_keyword (mem_keywords_iff.2 (by simp)) rest)]
  exact ⟨_, _, rfl⟩

theorem rows_of_block (titles : List Text) (rest : Text) : ∃ body rendered rows,
    (course env opened nested ⟨.seeking [], titles⟩ ("text".toList ++ rest)).yield.rows =
      ⟨titles.length, Node.blockKind, .block (literal env (before ':' rest)) body rendered⟩ ::
        rows := by
  rw [course_of_statement env opened nested titles
    (statement?_of_keyword (mem_keywords_iff.2 (by simp)) rest)]
  exact ⟨_, _, _, rfl⟩

theorem rows_ne_of_plain (hstages : env.stages ⊆ Stage.standard) {k : Text}
    (hk : k = "label".toList ∨ k = "text".toList)
    (hx : Stage.Plain x) (hcolon : ':' ∉ x) :
    (course env opened nested ⟨.seeking [], titles⟩ (k ++ (x ++ rest))).yield.rows ≠
      (course env opened nested ⟨.seeking [], titles⟩ (k ++ rest)).yield.rows := by
  have hid : literal env (before ':' (x ++ rest)) ≠ literal env (before ':' rest) := by
    rw [before_append_of_not_mem hcolon]
    exact Stage.applyAll_ne hstages hx _
  intro hsame
  rcases hk with rfl | rfl
  · obtain ⟨content, rows, hlong⟩ := rows_of_label titles (x ++ rest)
    obtain ⟨content', rows', hshort⟩ := rows_of_label titles rest
    rw [hlong, hshort] at hsame
    simp only [List.cons.injEq, Row.mk.injEq, Value.label.injEq] at hsame
    exact hid hsame.1.2.2.1
  · obtain ⟨body, rendered, rows, hlong⟩ := rows_of_block titles (x ++ rest)
    obtain ⟨body', rendered', rows', hshort⟩ := rows_of_block titles rest
    rw [hlong, hshort] at hsame
    simp only [List.cons.injEq, Row.mk.injEq, Value.block.injEq] at hsame
    exact hid hsame.1.2.2.1

theorem silent_of_overlap (hstages : env.stages ⊆ Stage.standard) {k k' : Text}
    (h : (k, k', solid x) ∈ overlaps)
    (hsame : (course env opened nested ⟨.seeking [], titles⟩ (k ++ (x ++ rest))).yield.rows =
      (course env opened nested ⟨.seeking [], titles⟩ (k' ++ rest)).yield.rows) :
    (course env opened nested ⟨.seeking [], titles⟩ (k ++ (x ++ rest))).yield.rows = [] := by
  have hforeign {c : Char} {u : Text} (hx : solid x = c :: u)
      (hc : ∀ k ∈ keywords, k.head? ≠ some c) : keyword? [] (x ++ rest) = none := by
    refine keyword?_of_foreign ?_
    simpa [hx] using hc
  have hcolon (hx : ':' ∉ solid x) : ':' ∉ x := fun hmem => hx (mem_solid (by decide) hmem)
  simp only [overlaps_eq, List.mem_cons, Prod.mk.injEq, List.not_mem_nil, or_false] at h
  rcases h with ⟨rfl, rfl, hx⟩ | ⟨rfl, rfl, hx⟩ | ⟨rfl, rfl, hx⟩ | ⟨rfl, rfl, hx⟩ | ⟨rfl, rfl, hx⟩ |
    ⟨rfl, rfl, hx⟩ | ⟨rfl, rfl, hx⟩
  · have hplain : Stage.Plain x := ⟨'e', by rw [hx]; rfl, by decide⟩
    exact absurd hsame (rows_ne_of_plain hstages (.inr rfl) hplain (hcolon (by rw [hx]; decide)))
  · exact rows_of_headless (by decide) rfl (hforeign hx (by decide))
  · have hplain : Stage.Plain x := ⟨'a', by rw [hx]; rfl, by decide⟩
    exact absurd hsame (rows_ne_of_plain hstages (.inl rfl) hplain (hcolon (by rw [hx]; decide)))
  · exact rows_of_headless (by decide) rfl (hforeign hx (by decide))
  · exact rows_of_headless (by decide) rfl (hforeign hx (by decide))
  · exact rows_of_headless (by decide) rfl (hforeign hx (by decide))
  · -- the directive begins with what the second keyword goes on with:
    refine rows_of_malformed fun hquote => ?_
    have hprefix : solid (before '\n' (x ++ rest)) <+: solid (x ++ rest) :=
      (List.takeWhile_prefix _).filter _
    obtain ⟨v, hv⟩ := hprefix
    have hhead : (solid (x ++ rest)).head? = some '"' := by
      rw [← hv, List.head?_append, hquote]
      rfl
    rw [solid_append, hx] at hhead
    cases hhead

/-- **A word that changes nothing finds nothing.** Without the word, the same rows come out of the
text only if they are none. -/
theorem silent_of_same_rows (hstages : env.stages ⊆ Stage.standard) {j r : Text} (hj : j ≠ [])
    (hfree : ∀ k ∈ keywords, ¬k <:+: j)
    (hsame : (course env opened nested ⟨.seeking j, titles⟩ r).yield.rows =
      (course env opened nested ⟨.seeking [], titles⟩ r).yield.rows) :
    (course env opened nested ⟨.seeking j, titles⟩ r).yield.rows = [] := by
  cases hword : keyword? j r with
  | none =>
    obtain ⟨word, hcourse⟩ := course_of_no_keyword env opened nested titles hword
    rw [hcourse]
    rfl
  | some cut =>
    cases hplain : keyword? [] r with
    | none =>
      obtain ⟨word, hcourse⟩ := course_of_no_keyword env opened nested titles hplain
      rw [hsame, hcourse]
      rfl
    | some cut' =>
      obtain ⟨k, restAfterWord⟩ := cut
      obtain ⟨k', rest⟩ := cut'
      -- the two readings meet behind the end `u` of the keyword that the word comes to:
      obtain ⟨u, rfl⟩ := prefix_of_keyword? hword
      have hk := keyword?_mem hword
      have hu : u ≠ [] := by
        rintro rfl
        rw [List.append_nil] at hk
        exact hfree j hk List.infix_rfl
      have hmeet := keyword?_meet hword (incomplete_of_keyword hj hk)
      rw [hplain] at hmeet
      obtain ⟨x, rfl, rfl⟩ := keyword?_spells hmeet.symm
      have hoverlap := mem_overlaps hj hu hk (keyword?_mem hplain)
      rw [course_of_word titles hword, course_of_word titles hplain] at hsame
      rw [course_of_word titles hword]
      exact silent_of_overlap hstages hoverlap hsame

/-! ### Lines without a keyword -/

/-- A line of a single word in which no keyword stands. -/
structure Junk (j : Text) : Prop where
  ne_nil : j ≠ []
  nonblank : ∀ c ∈ j, isBlank c = false
  free : ∀ k ∈ keywords, ¬k <:+: j

variable (env opened nested) in
theorem Junk.course {j : Text} (hj : Junk j) (titles : List Text) (r : Text) :
    course env opened nested ⟨.seeking [], titles⟩ (j ++ '\n' :: r) =
      Reader.course env opened nested ⟨.seeking j, titles⟩ r := by
  have hword : Incomplete [] j := fun v hv _ hmem => hj.free v hmem hv.isInfix
  have hline : AllBlank ['\n'] := allBlank_newline
  rw [(reaches_word hj.nonblank hword titles _).course_eq, List.nil_append]
  exact course_blank_append env opened nested hline j titles r

/-- **A line without a keyword is ignored only where nothing is left to be lost.** Let `p` be a text
of whole lines after which the reader is between constructs with no word begun, and `r` what follows.

* With a line of junk between them, the tree is the same exactly if neither `r` alone nor `r` behind
  the junk adds anything to the tree of `p`. This holds for any row of the stages of a document; a
  stage of another kind may make the same of different literals.
* If no keyword begins with the junk, all that follows is lost, whatever it is: what is yielded,
  remarks included, is what `p` alone yields, and nothing is reported. -/
theorem junk_ignored_iff (env : Settings) (opened : List Text) {p j r : Text} {titles : List Text}
    (hlines : p = [] ∨ EndsLine p)
    (hpoint : ∃ y, Reaches env opened (importing env opened) .initial (p ++ r) y
      ⟨.seeking [], titles⟩ r) (hj : Junk j) :
    let tree (source : Text) := (env.read opened source).tree
    (env.stages ⊆ Stage.standard →
        (tree (p ++ (j ++ '\n' :: r)) = tree (p ++ r) ↔
          tree (p ++ r) = tree p ∧ tree (p ++ (j ++ '\n' :: r)) = tree p)) ∧
      (r ≠ [] → (∀ k ∈ keywords, ¬j <+: k) →
        (env.read opened (p ++ (j ++ '\n' :: r))).yield = (env.read opened p).yield ∧
          (env.read opened (p ++ (j ++ '\n' :: r))).halt = none) := by
  intro tree
  by_cases hr : r = []
  · subst hr
    rw [List.append_nil]
    exact ⟨fun _ => by tauto, fun hne => absurd rfl hne⟩
  obtain ⟨y, hy⟩ := hpoint
  have hleads : Leads env opened (importing env opened) [] p titles y :=
    hy.leads hr (.inl hlines)
  have hread := read_of_leads hleads (List.forall_mem_nil _)
  rw [List.append_nil] at hread
  have hjunk := hj.course env opened (importing env opened) titles r
  have hrows (v : Text) : (env.read opened (p ++ v)).yield.rows = y.rows ++
      (course env opened (importing env opened) ⟨.seeking [], titles⟩ v).yield.rows :=
    (read_of_course (hleads v)).1
  have htree (a b : Text) : tree a = tree b ↔
      (env.read opened a).yield.rows = (env.read opened b).yield.rows := by
    refine ⟨fun h => ?_, fun h => congrArg Outline.forest h⟩
    rw [Grammar.rows_read env opened a, Grammar.rows_read env opened b]
    exact congrArg (Outline.rowsOfAll 0) h
  refine ⟨fun hstages => ?_, fun _ hdead => ?_⟩
  · rw [htree, htree, htree, hrows, hrows, hread.1, hjunk]
    constructor
    · intro hsame
      have hsame := List.append_cancel_left hsame
      have hsilent := silent_of_same_rows hstages hj.ne_nil hj.free hsame
      rw [← hsame, hsilent, List.append_nil]
      exact ⟨rfl, rfl⟩
    · rintro ⟨hplain, hword⟩
      exact hword.trans hplain.symm
  · obtain ⟨word, hcourse⟩ := course_of_no_keyword env opened (importing env opened) titles
      (keyword?_of_dead hdead r)
    have hwhole : course env opened (importing env opened) .initial (p ++ (j ++ '\n' :: r)) =
        ⟨y, ⟨.seeking word, titles⟩, 0, none⟩ := by
      rw [ReaderState.initial, hleads, hjunk, hcourse, Reading.after, Yield.append_empty]
    have hunplaced := read_unplaced env opened (p ++ (j ++ '\n' :: r))
    rw [hwhole] at hunplaced
    exact ⟨(congrArg Reading.yield hunplaced).trans hread.1.symm,
      congrArg Reading.halt hunplaced⟩

theorem junk_word : Junk "junk".toList where
  ne_nil := by decide
  nonblank := by
    intro c hc
    have hall : ("junk".toList.all (!isBlank ·)) = true := by decide
    simpa using List.all_eq_true.1 hall c hc
  free := by decide +kernel

/-- A line of junk behind an `end`, and then a keyword that means nothing or a label. -/
theorem junk_ignored_iff_end :
    let env := Settings.standard (Instant.read? 2026) id
    let tree (source : Text) := (env.read [] source).tree
    let p := "end\n".toList
    let j := "junk".toList
    Junk j ∧ tree (p ++ (j ++ '\n' :: "url\n".toList)) = tree (p ++ "url\n".toList) ∧
      tree (p ++ (j ++ '\n' :: "label a:b\n".toList)) ≠ tree (p ++ "label a:b\n".toList) := by
  intro env tree p j
  have hj : Junk j := junk_word
  have hpoint (r : Text) : ∃ y, Reaches env [] (importing env []) .initial (p ++ r) y
      ⟨.seeking [], []⟩ r := by
    constructor
    iterate 4 apply Reaches.step rfl
    exact .here _ _
  have hlines : p = [] ∨ EndsLine p := .inr rfl
  have hstages : env.stages ⊆ Stage.standard := List.Subset.refl _
  have hignored (r : Text) := (junk_ignored_iff env [] hlines (hpoint r) hj).1 hstages
  have hempty {source : Text} (h : (env.read [] source).tree.length = 0) : tree source = [] :=
    List.length_eq_zero_iff.1 h
  have halone : tree p = [] := hempty (by decide +kernel)
  refine ⟨hj, (hignored _).2 ?_, fun hsame => ?_⟩
  · exact ⟨(hempty (by decide +kernel)).trans halone.symm,
      (hempty (by decide +kernel)).trans halone.symm⟩
  · have hlost := congrArg List.length ((hignored _).1 hsame).1
    revert hlost
    decide +kernel

/-- A label behind a line of junk is lost. -/
theorem junk_hides_label : ∃ (env : Settings) (opened : List Text) (p j r : Text)
    (titles : List Text), (p = [] ∨ EndsLine p) ∧
      (∃ y, Reaches env opened (importing env opened) .initial (p ++ r) y ⟨.seeking [], titles⟩ r) ∧
      Junk j ∧
      (env.read opened (p ++ (j ++ '\n' :: r))).tree ≠ (env.read opened (p ++ r)).tree := by
  refine ⟨Settings.standard (Instant.read? 2026) id, [], [], "junk".toList, "label a:b\n".toList, [],
    .inl rfl, ⟨.empty, .here _ _⟩, junk_word, fun hsame => ?_⟩
  have hlength := congrArg List.length hsame
  revert hlength
  decide +kernel

end Vitae.Reader
