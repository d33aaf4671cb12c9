import Vitae.Proofs.Reader.Passage

/-!
# Statements at the end of a text

The last statement of a text may be cut off by the end of the text and swallow what is written
behind it. In a text that ends with a line, this happens in three ways only: an identifier of a
label or of a block without a colon, and a block without a closing line. Every other statement stays
as it is (`Reader.extension_of_statement?`). A text that has no statement left stays without one if
what follows starts with an `s`, unless the text is blank (`Reader.statement?_dead`).
-/

namespace Vitae.Reader

open Text

/-- The text ends with a line. -/
def EndsLine (t : Text) : Prop :=
  t.getLast? = some '\n'

variable {t u v word keyword rest : Text} {st : Statement}

theorem EndsLine.newline_mem (h : EndsLine t) : '\n' ∈ t :=
  List.mem_of_getLast? h

theorem EndsLine.of_suffix (h : EndsLine t) (hs : u <:+ t) (hne : u ≠ []) : EndsLine u := by
  obtain ⟨a, rfl⟩ := hs
  rwa [EndsLine, List.getLast?_append_of_ne_nil _ hne] at h

/-! ### Keywords -/

theorem keyword?_suffix (h : keyword? word t = some (keyword, rest)) : rest <:+ t := by
  fun_induction keyword? word t with
  | case1 => cases h
  | case2 word c t hc ih => exact (ih h).trans (List.suffix_cons _ _)
  | case3 word c t hc hmem =>
    cases h
    exact List.suffix_cons _ _
  | case4 word c t hc hmem ih => exact (ih h).trans (List.suffix_cons _ _)

theorem keyword?_rest_ne_nil (hline : EndsLine t) (h : keyword? word t = some (keyword, rest)) :
    rest ≠ [] := by
  fun_induction keyword? word t with
  | case1 => cases h
  | case2 word c t hc ih =>
    by_cases ht : t = []
    · subst ht
      cases h
    · exact ih (hline.of_suffix (List.suffix_cons _ _) ht) h
  | case3 word c t hc hmem =>
    cases h
    rintro rfl
    obtain rfl : c = '\n' := by simpa [EndsLine] using hline
    exact hc (by decide)
  | case4 word c t hc hmem ih =>
    by_cases ht : t = []
    · subst ht
      cases h
    · exact ih (hline.of_suffix (List.suffix_cons _ _) ht) h

theorem keyword?_append_of_some (h : keyword? word t = some (keyword, rest)) (v : Text) :
    keyword? word (t ++ v) = some (keyword, rest ++ v) := by
  fun_induction keyword? word t with
  | case1 => cases h
  | case2 word c t hc ih => rw [List.cons_append, keyword?, if_pos hc, ih h]
  | case3 word c t hc hmem =>
    cases h
    rw [List.cons_append, keyword?, if_neg hc, if_pos hmem]
  | case4 word c t hc hmem ih => rw [List.cons_append, keyword?, if_neg hc, if_neg hmem, ih h]

/-- A text without a keyword leaves a word behind, which is empty only after blanks. -/
theorem keyword?_append_of_none (h : keyword? word t = none) :
    ∃ word', (∀ v, keyword? word (t ++ v) = keyword? word' v) ∧
      (word' = [] → word = [] ∧ AllBlank t) := by
  fun_induction keyword? word t with
  | case1 word => exact ⟨word, fun v => rfl, fun hw => ⟨hw, allBlank_nil⟩⟩
  | case2 word c t hc ih =>
    obtain ⟨word', hv, hnil⟩ := ih h
    refine ⟨word', fun v => ?_, fun hw => ⟨(hnil hw).1, allBlank_cons.2 ⟨hc, (hnil hw).2⟩⟩⟩
    rw [List.cons_append, keyword?, if_pos hc, hv]
  | case3 word c t hc hmem => cases h
  | case4 word c t hc hmem ih =>
    obtain ⟨word', hv, hnil⟩ := ih h
    refine ⟨word', fun v => ?_, fun hw => absurd (hnil hw).1 (by simp)⟩
    rw [List.cons_append, keyword?, if_neg hc, if_neg hmem, hv]

theorem prefix_of_keyword? (h : keyword? word t = some (keyword, rest)) : word <+: keyword := by
  fun_induction keyword? word t with
  | case1 => cases h
  | case2 word c t hc ih => exact ih h
  | case3 word c t hc hmem =>
    cases h
    exact List.prefix_append _ _
  | case4 word c t hc hmem ih => exact (List.prefix_append _ _).trans (ih h)

/-- **A word that begins no keyword comes to none**, whatever follows it. -/
theorem keyword?_of_dead (h : ∀ k ∈ keywords, ¬word <+: k) (t : Text) :
    keyword? word t = none := by
  cases hk : keyword? word t with
  | none => rfl
  | some cut => exact absurd (prefix_of_keyword? hk) (h _ (keyword?_mem hk))

/-- No keyword has an `s` but at its start. -/
theorem keyword?_dead (hword : word ≠ []) (v : Text) : keyword? word ('s' :: v) = none := by
  -- a word that goes on with an `s` begins no keyword:
  have hnone (k : Text) (hk : k ∈ keywords) : ¬word ++ ['s'] <+: k := by
    rintro ⟨w, rfl⟩
    obtain ⟨c, word', rfl⟩ := List.exists_cons_of_ne_nil hword
    have htail : 's' ∈ (c :: word' ++ ['s'] ++ w).tail := by simp
    have hfree : ∀ k ∈ keywords, 's' ∉ k.tail := by decide
    exact hfree _ hk htail
  have hblank : ¬isBlank 's' = true := by decide
  rw [keyword?, if_neg hblank, if_neg fun hk => hnone _ hk List.prefix_rfl]
  exact keyword?_of_dead hnone v

theorem statement?_dead (h : statement? t = none) (ht : ¬AllBlank t) {b : Text} (hb : AllBlank b)
    (v : Text) : statement? (t ++ (b ++ 's' :: v)) = none := by
  obtain ⟨word, hv, hnil⟩ := keyword?_append_of_none (Option.map_eq_none_iff.1 h)
  have hword : word ≠ [] := fun hw => ht (hnil hw).2
  rw [statement?, hv, keyword?_blank_append hb, keyword?_dead hword, Option.map_none]

/-! ### Statements -/

theorem statementOf_suffix (keyword t : Text) : (statementOf keyword t).2 <:+ t := by
  unfold statementOf
  split_ifs
  · exact behind_suffix '\n' t
  · exact (behind_suffix '\n' _).trans (behind_suffix ':' t)
  · exact (Prose.rest_suffix _).trans (behind_suffix ':' t)
  · exact behind_suffix '\n' t
  · exact List.suffix_rfl
  · exact List.suffix_rfl

theorem statement?_suffix (h : statement? t = some (st, rest)) : rest <:+ t := by
  obtain ⟨⟨keyword, r⟩, hk, hst⟩ := Option.map_eq_some_iff.1 h
  have hsuffix := statementOf_suffix keyword r
  rw [hst] at hsuffix
  exact hsuffix.trans (keyword?_suffix hk)

/-- The directive of an import stands in a single line of the text. -/
theorem statement?_directive {directive : Text}
    (h : statement? t = some (.inclusion directive, rest)) :
    '\n' ∉ directive ∧ ∀ c ∈ directive, c ∈ t := by
  obtain ⟨⟨keyword, r⟩, hk, hst⟩ := Option.map_eq_some_iff.1 h
  have hdirective : directive = before '\n' r := by
    simp only [statementOf] at hst
    split_ifs at hst <;> cases hst
    rfl
  subst hdirective
  exact ⟨not_mem_before '\n' r, fun c hc => (keyword?_suffix hk).subset (mem_of_mem_before hc)⟩

/-- What becomes of the first statement of some lines when more is written behind them. -/
inductive Extension (t : Text) (st : Statement) (rest : Text) : Prop
  /-- It stays as it is. -/
  | complete (whole : ∀ id body, st ≠ .block id body false)
    (stays : ∀ v, statement? (t ++ v) = some (st, rest ++ v))
  /-- It is a label whose identifier goes on. -/
  | labelCut (isLabel : ∃ id content, st = .label id content)
    (swallows : ∀ v, ':' ∉ v → ∃ id, statement? (t ++ v) = some (.label id [], []))
  /-- It is a block whose identifier goes on. -/
  | blockCut (isBlock : ∃ id body, st = .block id body false)
    (swallows : ∀ v, ':' ∉ v → ∃ id, statement? (t ++ v) = some (.block id [] false, []))
  /-- It is a block without a closing line. -/
  | unclosed (isBlock : ∃ id body, st = .block id body false)
    (noClosing : ∃ a b, t = a ++ ':' :: b ∧ (Prose.read b).closed = false)

theorem extension_label {r : Text} (hline : EndsLine r)
    (happend : ∀ v, keyword? [] (t ++ v) = some ("label".toList, r ++ v))
    (hst : statementOf "label".toList r = (st, rest)) : Extension t st rest := by
  cases hst
  have hlabel (w : Text) : statementOf "label".toList w =
      (.label (before ':' w) (before '\n' (behind ':' w)), behind '\n' (behind ':' w)) := rfl
  by_cases hcolon : ':' ∈ r
  · have hbehind : EndsLine (behind ':' r) := by
      refine hline.of_suffix (behind_suffix ':' r) fun hnil => ?_
      have hsplit := before_append_behind hcolon
      rw [hnil] at hsplit
      rw [EndsLine, ← hsplit, List.getLast?_concat] at hline
      exact absurd hline (by decide)
    refine .complete (by simp) fun v => ?_
    rw [statement?, happend, Option.map_some, hlabel, before_append hcolon, behind_append hcolon,
      before_append hbehind.newline_mem, behind_append hbehind.newline_mem]
  · refine .labelCut ⟨_, _, rfl⟩ fun v hv => ⟨r ++ v, ?_⟩
    have hnone : ':' ∉ r ++ v := fun h => (List.mem_append.1 h).elim hcolon hv
    rw [statement?, happend, Option.map_some, hlabel, before_of_not_mem hnone,
      behind_of_not_mem hnone]
    rfl

theorem extension_block {r : Text} (hline : EndsLine r) (hr : r <:+ t)
    (happend : ∀ v, keyword? [] (t ++ v) = some ("text".toList, r ++ v))
    (hst : statementOf "text".toList r = (st, rest)) : Extension t st rest := by
  cases hst
  have hblock (w : Text) : statementOf "text".toList w =
      (.block (before ':' w) (Prose.read (behind ':' w)).body (Prose.read (behind ':' w)).closed,
        (Prose.read (behind ':' w)).rest) := rfl
  by_cases hcolon : ':' ∈ r
  · cases hclosed : (Prose.read (behind ':' r)).closed with
    | false =>
      obtain ⟨a, ha⟩ := hr
      refine .unclosed ⟨_, _, rfl⟩ ⟨a ++ before ':' r, behind ':' r, ?_, hclosed⟩
      rw [List.append_assoc, before_append_behind hcolon, ha]
    | true =>
      have hbehind : EndsLine (behind ':' r) := by
        refine hline.of_suffix (behind_suffix ':' r) fun hnil => ?_
        rw [hnil] at hclosed
        cases hclosed
      refine .complete (by simp) fun v => ?_
      rw [statement?, happend, Option.map_some, hblock, before_append hcolon, behind_append hcolon,
        Prose.read_append hbehind hclosed, hclosed]
  · have hcut (v : Text) (hv : ':' ∉ v) :
        statementOf "text".toList (r ++ v) = (.block (r ++ v) [] false, []) := by
      have hnone : ':' ∉ r ++ v := fun h => (List.mem_append.1 h).elim hcolon hv
      rw [hblock, before_of_not_mem hnone, behind_of_not_mem hnone]
      rfl
    refine .blockCut ⟨r, [], ?_⟩ fun v hv => ⟨r ++ v, ?_⟩
    · have hself := hcut [] (by simp)
      rw [List.append_nil] at hself
      exact congrArg Prod.fst hself
    · rw [statement?, happend, Option.map_some, hcut v hv]

/-- **A statement of some lines stays as it is when more is written behind them**, unless the end of
the lines has cut it off. -/
theorem extension_of_statement? (hline : EndsLine t) (h : statement? t = some (st, rest)) :
    Extension t st rest := by
  obtain ⟨⟨keyword, r⟩, hk, hst⟩ := Option.map_eq_some_iff.1 h
  have happend (v : Text) := keyword?_append_of_some hk v
  have hr := keyword?_suffix hk
  have hrline := hline.of_suffix hr (keyword?_rest_ne_nil hline hk)
  have hline' := hrline.newline_mem
  have hcomplete (hwhole : ∀ id body, st ≠ .block id body false)
      (hst' : ∀ v, statementOf keyword (r ++ v) = (st, rest ++ v)) : Extension t st rest := by
    refine .complete hwhole fun v => ?_
    rw [statement?, happend, Option.map_some, hst']
  -- only labels and blocks need more than the line that `r` begins with:
  rcases mem_keywords_iff.1 (keyword?_mem hk) with rfl | rfl | rfl | rfl | rfl | rfl | rfl
  · cases hst
    refine hcomplete (by rintro _ _ ⟨⟩) fun v => ?_
    change (Statement.heading (trim (before '\n' (r ++ v))), behind '\n' (r ++ v)) = _
    rw [before_append hline', behind_append hline']
  · exact extension_block hrline hr happend hst
  · cases hst
    exact hcomplete (by rintro _ _ ⟨⟩) fun v => rfl
  · exact extension_label hrline happend hst
  · cases hst
    exact hcomplete (by rintro _ _ ⟨⟩) fun v => rfl
  · cases hst
    exact hcomplete (by rintro _ _ ⟨⟩) fun v => rfl
  · cases hst
    refine hcomplete (by rintro _ _ ⟨⟩) fun v => ?_
    change (Statement.inclusion (before '\n' (r ++ v)), behind '\n' (r ++ v)) = _
    rw [before_append hline', behind_append hline']

end Vitae.Reader
