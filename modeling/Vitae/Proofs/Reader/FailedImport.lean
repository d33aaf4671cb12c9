import Vitae.Instant.Reading
import Vitae.Proofs.Reader.Point

/-!
# Failed imports

A reading that halts has come to an import that fails. What it leaves is what the reading of the
text in front of this import leaves (`Reader.failed_import`): nothing of the other document is taken
over, and no block of prose has looked at the import or at what stands behind it.

The halt itself only shows where the directive ends. Where the import starts is found by following
the keyword and the directive that are under way at each point of the reading (`Reader.Begun`).
-/

namespace Vitae

namespace Reader

open Text

variable (env : Settings) (opened : List Text)

/-- A document goes on behind `p` with the keyword of an import, as it is spelled from its first
character on, with the directive and with `after`. The reader comes to the keyword between
constructs, and the import fails with `h`. -/
structure FailsAt (p spelled directive after : Text) (h : Halt) : Prop where
  comes : ∃ y titles, Reaches env opened (importing env opened) .initial
    (p ++ (spelled ++ (directive ++ after))) y ⟨.seeking [], titles⟩
    (spelled ++ (directive ++ after))
  sign : spelled.head? = some '@'
  keyword : keyword? [] spelled = some ("@import".toList, [])
  line : '\n' ∉ directive
  ends : after = [] ∨ after.head? = some '\n'
  fails : (addImport env opened (importing env opened) .initial directive).halt = some h

variable {env opened}

/-! ### Where an import starts -/

section

variable {nested : Text → Text → Reading} {source : Text}

variable (env opened nested source) in
/-- The keyword or the directive that is under way at a point has been started at an earlier point
between constructs, and nothing has been yielded since. -/
def Begun (y : Yield) (s : ReaderState) (t : Text) : Prop :=
  match s.phase with
  | .seeking word => ∃ spelled,
    Reaches env opened nested .initial source y ⟨.seeking [], s.opened⟩ (spelled ++ t) ∧
      spelled.head? = word.head? ∧ ∀ u, keyword? [] (spelled ++ u) = keyword? word u
  | .filling .directive buffer => ∃ spelled,
    Reaches env opened nested .initial source y ⟨.seeking [], s.opened⟩
        (spelled ++ (buffer ++ t)) ∧
      spelled.head? = some '@' ∧ keyword? [] spelled = some ("@import".toList, []) ∧ '\n' ∉ buffer
  | .filling _ _ => True

theorem begun_of_seeking {y : Yield} {s : ReaderState} {t : Text} (hs : s.phase = .seeking [])
    (h : Reaches env opened nested .initial source y s t) :
    Begun env opened nested source y s t := by
  obtain ⟨phase, titles⟩ := s
  obtain rfl : phase = .seeking [] := hs
  exact ⟨[], h, rfl, fun _ => rfl⟩

theorem header?_directive {keyword : Text} (h : header? keyword = some .directive) :
    keyword = "@import".toList := by
  by_contra hne
  simp only [header?, if_neg hne] at h
  split_ifs at h <;> cases h

theorem Begun.collect {y : Yield} {word : Text} {titles : List Text} {c : Char} {rest : Text}
    (hreach : Reaches env opened nested .initial source y ⟨.seeking word, titles⟩ (c :: rest))
    (h : Begun env opened nested source y ⟨.seeking word, titles⟩ (c :: rest)) :
    Begun env opened nested source y (collect ⟨.seeking word, titles⟩ word c) rest := by
  have hnext : Reaches env opened nested .initial source (y ++ .empty)
      (Reader.collect ⟨.seeking word, titles⟩ word c) rest := hreach.snoc rfl
  rw [Yield.append_empty] at hnext
  obtain ⟨spelled, horigin, hhead, hspells⟩ := h
  -- the characters so far and this one:
  have hmore : Reaches env opened nested .initial source y ⟨.seeking [], titles⟩
      ((spelled ++ [c]) ++ rest) := by
    rw [List.append_assoc]
    exact horigin
  have hspells' (u : Text) : keyword? [] (spelled ++ [c] ++ u) = keyword? word (c :: u) := by
    rw [List.append_assoc]
    exact hspells (c :: u)
  have hhead' : (spelled ++ [c]).head? = (word ++ [c]).head? := by
    rw [List.head?_append, List.head?_append, hhead]
  unfold Reader.collect at hnext ⊢
  dsimp only at hnext ⊢
  split_ifs at hnext ⊢ with hblank hkeyword
  · cases word with
    | nil => exact begun_of_seeking rfl hnext
    | cons a word =>
      -- a blank within the keyword does not count, but belongs to its spelling:
      refine ⟨spelled ++ [c], hmore, hhead'.trans rfl, fun u => ?_⟩
      rw [hspells', keyword?, if_pos hblank]
  · unfold dispatch at hnext ⊢
    cases hheader : header? (word ++ [c]) with
    | none =>
      simp only [hheader] at hnext ⊢
      split_ifs at hnext ⊢ <;> exact begun_of_seeking rfl hnext
    | some header =>
      cases header with
      | directive =>
        have himport := header?_directive hheader
        refine ⟨spelled ++ [c], hmore, ?_, ?_, List.not_mem_nil⟩
        · rw [hhead', himport]
          rfl
        · have hend := hspells' []
          rwa [List.append_nil, keyword?, if_neg hblank, if_pos hkeyword, himport] at hend
      | title | labelId | labelContent id | blockId => trivial
  · refine ⟨spelled ++ [c], hmore, hhead', fun u => ?_⟩
    rw [hspells', keyword?, if_neg hblank, if_neg hkeyword]

/-- **Wherever the reader comes to, what is under way has been started between constructs.** -/
theorem begun_of_reaches {y : Yield} {s : ReaderState} {t : Text}
    (h : Reaches env opened nested .initial source y s t) :
    Begun env opened nested source y s t := by
  refine h.invariant (I := Begun env opened nested source) (begun_of_seeking rfl (.here _ _)) ?_
  intro y s c rest hreach hbegun halt
  have hnext := hreach.snoc halt
  obtain ⟨phase, titles⟩ := s
  cases phase with
  | seeking word =>
    have hcollect := hbegun.collect hreach
    rw [← Yield.append_empty y] at hcollect
    exact hcollect
  | filling header buffer =>
    unfold step at halt hnext ⊢
    dsimp only at halt hnext ⊢
    split_ifs at halt hnext ⊢ with hc
    · by_cases hlabel : header = .labelId
      · subst hlabel
        trivial
      · exact begun_of_seeking (complete_seeks env opened nested header _ hlabel buffer rest halt)
          hnext
    · cases header with
      | directive =>
        obtain ⟨spelled, horigin, hhead, hkeyword, hline⟩ := hbegun
        have hmore : buffer ++ c :: rest = buffer ++ [c] ++ rest := List.append_cons _ _ _
        rw [hmore, ← Yield.append_empty y] at horigin
        refine ⟨spelled, horigin, hhead, hkeyword, fun hmem => ?_⟩
        rcases List.mem_append.1 hmem with hmem | hmem
        · exact hline hmem
        · exact hc (List.mem_singleton.1 hmem).symm
      | title | labelId | labelContent id | blockId => trivial

end

/-! ### What a failed import leaves -/

theorem rows_addImport {nested : Text → Text → Reading} {s : ReaderState} {directive : Text}
    {h : Halt} (halt : (addImport env opened nested s directive).halt = some h) :
    (addImport env opened nested s directive).yield.rows = [] := by
  obtain ⟨o, ho, hcase⟩ := addImport_cases env opened nested s directive
  rw [ho] at halt ⊢
  cases hcase with
  | read => cases halt
  | noTarget | cycle | unreadable | halted => rfl

namespace FailsAt

variable {p spelled directive after : Text} {h : Halt}

theorem comes_append (hfails : FailsAt env opened p spelled directive after h) :
    ∃ y titles, ∀ w, Reaches env opened (importing env opened) .initial (p ++ w) y
      ⟨.seeking [], titles⟩ w := by
  obtain ⟨y, titles, hy⟩ := hfails.comes
  obtain ⟨u, rfl⟩ := List.head?_eq_some_iff.1 hfails.sign
  exact ⟨y, titles, fun w => hy.extend (by simp) (.inr ⟨'@', _, rfl, by decide⟩) w⟩

theorem run_eq (hfails : FailsAt env opened p spelled directive after h) {y : Yield}
    {titles : List Text} (hcomes : ∀ w, Reaches env opened (importing env opened) .initial
      (p ++ w) y ⟨.seeking [], titles⟩ w) {after' : Text}
    (hends : after' = [] ∨ after'.head? = some '\n') :
    run env opened (importing env opened) 0 .initial (p ++ (spelled ++ (directive ++ after'))) =
      ⟨y ++ (addImport env opened (importing env opened) ⟨.seeking [], titles⟩ directive).yield,
        ⟨.filling .directive [], titles⟩, (p ++ (spelled ++ directive)).length, some h⟩ := by
  have hkeyword : keyword? [] (spelled ++ (directive ++ after')) =
      some ("@import".toList, directive ++ after') := keyword?_append_of_some hfails.keyword _
  have hdirective := @reaches_filling env opened (importing env opened) .directive directive []
    titles hfails.line after'
  have hreach := (hcomes _).trans ((reaches_keyword titles hkeyword).trans hdirective)
  have hhalt := hfails.fails
  rw [halt_addImport env opened _ .initial ⟨.seeking [], titles⟩] at hhalt
  have hplace : 0 + ((p ++ (spelled ++ (directive ++ after'))).length - after'.length) =
      (p ++ (spelled ++ directive)).length := by
    simp only [List.length_append]
    omega
  rw [hreach.run, List.nil_append, run_of_halt hends hhalt, hplace]
  simp only [Reading.after, Yield.append_empty]

end FailsAt

theorem exists_failsAt {source : Text} {h : Halt} (hstop : env.stop? opened source = some h) :
    ∃ p spelled directive after, source = p ++ (spelled ++ (directive ++ after)) ∧
      FailsAt env opened p spelled directive after h := by
  obtain ⟨y, titles, directive, after, hreach, hends, hfails⟩ := exists_point_of_halt hstop
  obtain ⟨spelled, horigin, hsign, hkeyword, hline⟩ := begun_of_reaches hreach
  obtain ⟨p, rfl⟩ := horigin.suffix
  rw [halt_addImport env opened _ ⟨.seeking [], titles⟩ .initial] at hfails
  exact ⟨p, spelled, directive, after, rfl, ⟨y, titles, horigin⟩, hsign, hkeyword, hline, hends,
    hfails⟩

/-- **A failed import leaves the document as it was.** A reading halts exactly if it comes to an
`@import` that fails. Then, with `p` in front of the `@`:

* the tree with its parent links and the open sections are those of the document `p`;
* the reader stands in the directive, on the newline that ends it or at the end of the document;
* whatever else follows this newline, the reading is the same. -/
theorem failed_import (env : Settings) (opened : List Text) (source : Text) (h : Halt) :
    (env.stop? opened source = some h ↔
      ∃ p spelled directive after, source = p ++ (spelled ++ (directive ++ after)) ∧
        FailsAt env opened p spelled directive after h) ∧
    ∀ p spelled directive after, FailsAt env opened p spelled directive after h →
      let document := p ++ (spelled ++ (directive ++ after))
      let failed := env.read opened document
      let cut := env.read opened p
      failed.tree = cut.tree ∧ failed.yield.rows.parents = cut.yield.rows.parents ∧
        failed.state.opened = cut.state.opened ∧ cut.halt = none ∧
        failed.state.place = .directive ∧
        failed.position = (p ++ (spelled ++ directive)).length ∧
        (failed.position = document.length ∨ document[failed.position]? = some '\n') ∧
        ∀ rest, after = '\n' :: rest → ∀ rest',
          env.read opened (p ++ (spelled ++ (directive ++ '\n' :: rest'))) = failed := by
  refine ⟨⟨exists_failsAt, ?_⟩, ?_⟩
  · rintro ⟨p, spelled, directive, after, rfl, hfails⟩
    obtain ⟨y, titles, hcomes⟩ := hfails.comes_append
    rw [Settings.stop?, hfails.run_eq hcomes hfails.ends]
  · intro p spelled directive after hfails document failed cut
    obtain ⟨y, titles, hcomes⟩ := hfails.comes_append
    have hrun := hfails.run_eq hcomes hfails.ends
    have hfailed : failed = tolerate env _ := congrArg (tolerate env) hrun
    have hfails' := hfails.fails
    rw [halt_addImport env opened _ .initial ⟨.seeking [], titles⟩] at hfails'
    have hrows : failed.yield.rows = y.rows := by
      rw [hfailed, Grammar.rows_tolerate, Yield.rows_append, rows_addImport hfails',
        List.append_nil]
    have hstate : failed.state = ⟨.filling .directive [], titles⟩ := by
      rw [hfailed, state_tolerate]
    have hposition : failed.position = (p ++ (spelled ++ directive)).length := by
      rw [hfailed, position_tolerate]
    -- the document that ends in front of the import:
    have hleads : Leads env opened (importing env opened) [] p titles y :=
      fun w => (hcomes w).course
    have hcourse : course env opened (importing env opened) .initial p =
        ⟨y, ⟨.seeking [], titles⟩, 0, none⟩ := hleads.course_eq
    have hcut : failed.yield.rows = cut.yield.rows := by rw [hrows, rows_read_eq, hcourse]
    refine ⟨congrArg Outline.forest hcut, congrArg Outline.parents hcut, ?_, ?_, ?_, hposition, ?_,
      ?_⟩
    · rw [hstate, state_read, hcourse]
    · rw [halt_read, stop?_eq_course, hcourse]
    · rw [hstate]
      rfl
    · have hdocument : document = p ++ (spelled ++ directive) ++ after := by
        simp only [document, List.append_assoc]
      rw [hposition, hdocument]
      rcases hfails.ends with rfl | hafter
      · exact .inl (by rw [List.append_nil])
      · refine .inr ?_
        rw [List.getElem?_append_right le_rfl, Nat.sub_self, ← hafter, List.head?_eq_getElem?]
    · rintro rest rfl rest'
      have hends : '\n' :: rest' = [] ∨ ('\n' :: rest').head? = some '\n' := .inr rfl
      exact (congrArg (tolerate env) (hfails.run_eq hcomes hends)).trans hfailed.symm

/-- An import of a missing document within a section. -/
theorem failed_import_missing :
    let env := { Settings.standard (Instant.read? 2026) id with library := .ofList [] }
    let failed := env.read []
      ("section S\n".toList ++ ("@ import".toList ++ (" \"f\"".toList ++ "\nend\n".toList)))
    let cut := env.read [] "section S\n".toList
    FailsAt env [] "section S\n".toList "@ import".toList " \"f\"".toList "\nend\n".toList
        (.refused (.unreadable "./f.resume".toList .noEntry)) ∧
      failed.tree = cut.tree ∧ failed.state.opened = cut.state.opened ∧
      failed.state.place = .directive ∧ failed.position = 22 := by
  intro env failed cut
  have hkeyword := keyword?_append (k := "section".toList) (by decide)
    (" S\n".toList ++ ("@ import".toList ++ (" \"f\"".toList ++ "\nend\n".toList)))
  have htitle := @reaches_filling env [] (importing env []) .title " S".toList [] [] (by decide)
    ('\n' :: ("@ import".toList ++ (" \"f\"".toList ++ "\nend\n".toList)))
  have hcomes := (reaches_keyword [] hkeyword).trans (htitle.trans (.step rfl (.here _ _)))
  have htarget : Import.target (.ok ['.']) " \"f\"".toList = .ok "./f.resume".toList := by
    decide +kernel
  have hhalt : (addImport env [] (importing env []) .initial " \"f\"".toList).halt =
      some (.refused (.unreadable "./f.resume".toList .noEntry)) := by
    rw [addImport_of_notMem env [] _ .initial htarget List.not_mem_nil]
    rfl
  have hfails : FailsAt env [] "section S\n".toList "@ import".toList " \"f\"".toList
      "\nend\n".toList (.refused (.unreadable "./f.resume".toList .noEntry)) :=
    ⟨⟨_, _, hcomes⟩, rfl, by decide +kernel, by decide, .inr rfl, hhalt⟩
  obtain ⟨htree, -, hopened, -, hplace, hposition, -⟩ :=
    (failed_import env [] [] _).2 _ _ _ _ hfails
  exact ⟨hfails, htree, hopened, hplace, hposition⟩

end Reader

end Vitae
