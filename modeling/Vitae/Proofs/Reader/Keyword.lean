import Vitae.Proofs.Reader.Extension

/-!
# Words and keywords

The blanks in a text do not matter to the keyword that it spells (`Reader.keyword?_spells`). A word
that begins no keyword never comes to one (`Reader.keyword?_of_dead`), and where one word comes to a
keyword, another word has collected the same end of this keyword (`Reader.keyword?_meet`). That end can
be the beginning of another keyword; `Reader.overlaps` lists how.
-/

namespace Vitae.Reader

open Text

variable {word word' t u keyword rest : Text}

/-- Behind the word, the characters of `u` complete no keyword. -/
def Incomplete (word u : Text) : Prop :=
  ∀ v, v <+: u → v ≠ [] → word ++ v ∉ keywords

theorem Incomplete.head {c : Char} (h : Incomplete word (c :: u)) : word ++ [c] ∉ keywords :=
  h [c] (List.prefix_append [c] u) (List.cons_ne_nil c [])

theorem Incomplete.tail {c : Char} (h : Incomplete word (c :: u)) :
    Incomplete (word ++ [c]) u := by
  intro v hv _
  rw [List.append_assoc]
  exact h (c :: v) (List.cons_prefix_cons.2 ⟨rfl, hv⟩) (List.cons_ne_nil c v)

/-- A keyword is the word and what the text has spelled, blanks left out. -/
theorem keyword?_spells (h : keyword? word t = some (keyword, rest)) :
    ∃ x, t = x ++ rest ∧ keyword = word ++ solid x := by
  fun_induction keyword? word t with
  | case1 => cases h
  | case2 word c t hc ih =>
    obtain ⟨x, rfl, hx⟩ := ih h
    exact ⟨c :: x, rfl, by simpa [solid, hc] using hx⟩
  | case3 word c t hc hmem =>
    cases h
    exact ⟨[c], rfl, by simp [solid, hc]⟩
  | case4 word c t hc hmem ih =>
    obtain ⟨x, rfl, hx⟩ := ih h
    exact ⟨c :: x, rfl, by simpa [solid, hc] using hx⟩

theorem keyword?_of_foreign (h : ∀ k ∈ keywords, k.head? ≠ (solid t).head?) :
    keyword? [] t = none := by
  cases hk : keyword? [] t with
  | none => rfl
  | some cut =>
    obtain ⟨x, rfl, hx⟩ := keyword?_spells hk
    have hne : cut.1 ≠ [] := by
      have hall : ∀ k ∈ keywords, k ≠ [] := by decide
      exact hall _ (keyword?_mem hk)
    refine absurd ?_ (h _ (keyword?_mem hk))
    rw [List.nil_append] at hx
    rw [solid_append, ← hx, List.head?_append_of_ne_nil _ hne]

/-- Where one word comes to a keyword, another has collected the same end of it. -/
theorem keyword?_meet (h : keyword? word t = some (word ++ u, rest)) (hu : Incomplete word' u) :
    keyword? word' t = keyword? (word' ++ u) rest := by
  fun_induction keyword? word t generalizing word' u with
  | case1 => cases h
  | case2 word c t hc ih => rw [keyword?, if_pos hc, ih h hu]
  | case3 word c t hc hmem =>
    obtain ⟨hword, rfl⟩ := Prod.mk.inj (Option.some.inj h)
    obtain rfl : [c] = u := List.append_cancel_left hword
    rw [keyword?, if_neg hc, if_neg hu.head]
  | case4 word c t hc hmem ih =>
    obtain ⟨v, hv⟩ := prefix_of_keyword? h
    obtain rfl : u = c :: v := by simpa using hv.symm
    rw [keyword?, if_neg hc, if_neg hu.head, ih (by simpa using h) hu.tail]
    simp

/-! ### Overlaps of keywords -/

/-- Where the end of a keyword is the beginning of another: the two keywords, and how the second
goes on. -/
def overlaps : List (Text × Text × Text) :=
  keywords.flatMap fun k => keywords.flatMap fun k' =>
    (List.range k.length).filterMap fun n =>
      if 0 < n ∧ k.drop n <+: k' then some (k, k', k'.drop (k.length - n)) else none

theorem overlaps_eq : overlaps =
    [("text".toList, "text".toList, "ext".toList), ("end".toList, "date".toList, "ate".toList),
      ("label".toList, "label".toList, "abel".toList),
      ("url".toList, "label".toList, "abel".toList), ("date".toList, "text".toList, "xt".toList),
      ("date".toList, "end".toList, "nd".toList),
      ("@import".toList, "text".toList, "ext".toList)] := by
  decide +kernel

theorem mem_overlaps {j u v : Text} (hj : j ≠ []) (hu : u ≠ []) (hk : j ++ u ∈ keywords)
    (hk' : u ++ v ∈ keywords) : (j ++ u, u ++ v, v) ∈ overlaps := by
  have hlength : j.length < (j ++ u).length := by
    simpa using List.length_pos_of_ne_nil hu
  have hoverlap : 0 < j.length ∧ (j ++ u).drop j.length <+: u ++ v := by
    simpa using List.length_pos_of_ne_nil hj
  refine List.mem_flatMap.2 ⟨_, hk, List.mem_flatMap.2 ⟨_, hk', List.mem_filterMap.2 ?_⟩⟩
  refine ⟨j.length, List.mem_range.2 hlength, ?_⟩
  rw [if_pos hoverlap]
  simp

theorem eq_of_infix_keyword : ∀ k ∈ keywords, ∀ k' ∈ keywords, k <:+: k' → k = k' := by
  decide +kernel

theorem incomplete_of_keyword {j u : Text} (hj : j ≠ []) (hk : j ++ u ∈ keywords) :
    Incomplete [] u := by
  intro v hv _ hmem
  have hinfix : v <:+: j ++ u := hv.isInfix.trans (List.suffix_append j u).isInfix
  have heq := eq_of_infix_keyword v hmem _ hk hinfix
  have hle := hv.length_le
  have hpos := List.length_pos_of_ne_nil hj
  rw [heq, List.length_append] at hle
  omega

end Vitae.Reader
