import Vitae.Proofs.Text.Trim
import Vitae.Writer

/-!
# Reading back what has been quoted

A text that is written as a literal loses its quotes again (`Literal.unwrap_textLiteral`), a keyword
is told from what follows it (`Literal.afterKeyword?_append`), and the words of a link come out of
the quoted words as they went in (`Literal.quotedWords_linkWord`, `Literal.quotedWords_linkWords`).
The words of any text are trimmed, not empty and free of quotes (`Literal.quotedWords_plain`), so a
link that has been read can always be written.
-/

namespace Vitae.Literal

open Text Writer

/-! ### Quotes around a text -/

theorem unwrap_blank_append {a : Text} (ha : AllBlank a) (t : Text) :
    unwrap (a ++ t) = unwrap t := by
  simp only [unwrap, trim_blank_append ha]

theorem unwrap_append_blank {b : Text} (hb : AllBlank b) (t : Text) :
    unwrap (t ++ b) = unwrap t := by
  simp only [unwrap, trim_append_blank hb]

theorem unwrap_inQuotes (t : Text) : unwrap (inQuotes t) = t := by
  have htrim : trim (inQuotes t) = inQuotes t :=
    trim_between (k := ['"']) (v := ['"']) rfl (by simp) rfl (by simp) t
  have hquoted : 2 ≤ (inQuotes t).length ∧ (inQuotes t).head? = some '"' ∧
      (inQuotes t).getLast? = some '"' := by
    refine ⟨?_, rfl, List.getLast?_concat⟩
    rw [inQuotes, List.length_append, List.length_cons, List.length_singleton]
    omega
  simp only [unwrap, htrim, if_pos hquoted]
  exact List.dropLast_concat

theorem unwrap_of_trimmed {t : Text} (htrim : trim t = t) (h : t.head? ≠ some '"') :
    unwrap t = t := by
  simp only [unwrap, htrim, h, false_and, and_false, ↓reduceIte]

/-- A text that has been written as a literal is read back. -/
theorem unwrap_textLiteral (t : Text) : unwrap (textLiteral t) = t := by
  unfold textLiteral
  split_ifs with hneeds
  · exact unwrap_inQuotes t
  · simp only [needsQuotes, Bool.or_eq_true, not_or, Bool.and_eq_true, decide_eq_true_eq, not_not,
      beq_iff_eq] at hneeds
    obtain ⟨⟨htrim, hquoted⟩, -⟩ := hneeds
    have hplain : ¬(2 ≤ t.length ∧ t.head? = some '"' ∧ t.getLast? = some '"') :=
      fun h => hquoted ⟨⟨h.1, h.2.1⟩, h.2.2⟩
    simp only [unwrap, ← htrim, if_neg hplain]

theorem mem_of_mem_unwrap {t : Text} {c : Char} (h : c ∈ unwrap t) : c ∈ t := by
  unfold unwrap at h
  simp only at h
  split_ifs at h
  · exact mem_of_mem_trim (List.mem_of_mem_drop (List.dropLast_subset _ h))
  · exact mem_of_mem_trim h

/-! ### Keywords -/

variable {keyword rest t : Text}

theorem trim_keyword_append (hk : trim keyword = keyword) (hkne : keyword ≠ [])
    (hr : trim rest = rest) (hrne : rest ≠ []) :
    trim (keyword ++ ' ' :: rest) = keyword ++ ' ' :: rest :=
  trim_between hk hkne hr hrne [' ']

theorem afterKeyword?_append (hk : trim keyword = keyword) (hkne : keyword ≠ [])
    (hr : trim rest = rest) (hrne : rest ≠ []) :
    afterKeyword? keyword (keyword ++ ' ' :: rest) = some rest := by
  have hne : keyword ++ ' ' :: rest ≠ keyword := by simp
  have hhead : dropHead? keyword (keyword ++ ' ' :: rest) = some (' ' :: rest) := by
    have hprefix : keyword.isPrefixOf (keyword ++ ' ' :: rest) = true :=
      List.isPrefixOf_iff_prefix.2 (List.prefix_append _ _)
    rw [dropHead?, if_pos hprefix, List.drop_left]
  have hblank : isBlank ' ' = true := rfl
  simp only [afterKeyword?, trim_keyword_append hk hkne hr hrne, if_neg hne, hhead, hblank,
    ↓reduceIte, trim_cons_space, hr]

theorem afterKeyword?_of_not_prefix (h : ¬keyword <+: trim t) : afterKeyword? keyword t = none := by
  have hne : trim t ≠ keyword := fun h' => h (h' ▸ List.prefix_rfl)
  have hhead : dropHead? keyword (trim t) = none := by
    rw [dropHead?, if_neg fun h' => h (List.isPrefixOf_iff_prefix.1 h')]
  simp only [afterKeyword?, if_neg hne, hhead]

theorem mem_of_mem_afterKeyword? (h : afterKeyword? keyword t = some rest) {c : Char}
    (hc : c ∈ rest) : c ∈ t := by
  simp only [afterKeyword?] at h
  split_ifs at h with heq
  · cases h
    cases hc
  · split at h
    · rename_i d u hhead
      split_ifs at h
      cases h
      rw [dropHead?] at hhead
      split_ifs at hhead
      have hdrop : (trim t).drop keyword.length = d :: u := Option.some_inj.1 hhead
      exact mem_of_mem_trim (List.mem_of_mem_drop (hdrop ▸ mem_of_mem_trim hc))
    · cases h

/-! ### Words in quotes -/

namespace Cutting

/-- Characters that belong to the piece that is being collected. -/
theorem foldl_step_plain (c : Cutting) {w : Text}
    (h : ∀ x ∈ w, x ≠ '"' ∧ (isBlank x = true → c.quoted = true)) :
    w.foldl step c = { c with piece := c.piece ++ w } := by
  induction w generalizing c with
  | nil => rw [List.foldl_nil, List.append_nil]
  | cons x w ih =>
    obtain ⟨hx, hblank⟩ := h x List.mem_cons_self
    have hstep : c.step x = { c with piece := c.piece ++ [x] } := by
      rw [step, if_neg hx, if_neg]
      intro hb
      rw [Bool.and_eq_true, Bool.not_eq_true'] at hb
      exact absurd (hblank hb.1) (by rw [hb.2]; decide)
    have hrest := ih { c with piece := c.piece ++ [x] } fun y hy => h y (List.mem_cons_of_mem _ hy)
    rw [List.foldl_cons, hstep, hrest]
    simp only [List.append_assoc, List.singleton_append]

/-- A written word becomes the last piece, and no quote stays open. -/
theorem foldl_step_linkWord (ps : List Text) {w : Text} (hne : w ≠ []) (hquote : '"' ∉ w) :
    ((linkWord w).foldl step ⟨ps, [], false⟩).flushed = ps ++ [w] ∧
      ((linkWord w).foldl step ⟨ps, [], false⟩).quoted = false := by
  have hplain : ∀ x ∈ w, x ≠ '"' := fun x hx h => hquote (h ▸ hx)
  have hflushed (b : Bool) : (⟨ps, w, b⟩ : Cutting).flushed = ps ++ [w] := by
    rw [flushed, if_neg (by simpa using hne)]
  unfold linkWord
  split_ifs with hblank
  · have hinside := foldl_step_plain ⟨ps, [], true⟩ fun x hx => ⟨hplain x hx, fun _ => rfl⟩
    have hopen : (⟨ps, [], false⟩ : Cutting).step '"' = ⟨ps, [], true⟩ := rfl
    -- the closing quote flushes the word:
    have hclose : (⟨ps, w, true⟩ : Cutting).step '"' = ⟨ps ++ [w], [], false⟩ := by
      rw [step, if_pos rfl, hflushed]
      rfl
    rw [inQuotes, List.cons_append, List.foldl_cons, List.foldl_append, hopen, hinside]
    simp only [List.nil_append, List.foldl_cons, List.foldl_nil, hclose]
    exact ⟨rfl, trivial⟩
  · simp only [Bool.or_eq_true, not_or, List.any_eq_true, not_exists, not_and] at hblank
    have hinside := foldl_step_plain ⟨ps, [], false⟩ fun x hx =>
      ⟨hplain x hx, fun hb => absurd hb (hblank.2 x hx)⟩
    rw [hinside]
    exact ⟨hflushed false, rfl⟩

/-- All characters of the pieces satisfy `S`. -/
def Within (S : Char → Prop) (c : Cutting) : Prop :=
  ∀ p ∈ c.piece :: c.pieces, ∀ x ∈ p, S x

theorem Within.flushed {S : Char → Prop} {c : Cutting} (h : c.Within S) :
    ∀ p ∈ c.flushed, ∀ x ∈ p, S x := by
  intro p hp
  unfold Cutting.flushed at hp
  split_ifs at hp
  · exact h p (List.mem_cons_of_mem _ hp)
  · refine h p ?_
    rw [List.mem_cons]
    simpa [or_comm] using hp

theorem Within.step {S : Char → Prop} {c : Cutting} (h : c.Within S) {x : Char}
    (hx : x ≠ '"' → S x) : (c.step x).Within S := by
  have hflushed (b : Bool) : Within S ⟨c.flushed, [], b⟩ := by
    intro p hp
    rcases List.mem_cons.1 hp with rfl | hp
    · exact List.forall_mem_nil _
    · exact h.flushed p hp
  unfold Cutting.step
  split_ifs with hquote
  · exact hflushed _
  · exact hflushed _
  · intro p hp
    rcases List.mem_cons.1 hp with rfl | hp
    · intro y hy
      rcases List.mem_append.1 hy with hy | hy
      · exact h _ List.mem_cons_self y hy
      · rw [List.mem_singleton.1 hy]
        exact hx hquote
    · exact h p (List.mem_cons_of_mem _ hp)

theorem Within.foldl {S : Char → Prop} {c : Cutting} (h : c.Within S) {t : Text}
    (ht : ∀ x ∈ t, x ≠ '"' → S x) : (t.foldl Cutting.step c).Within S := by
  induction t generalizing c with
  | nil => exact h
  | cons x t ih =>
    exact ih (h.step (ht x List.mem_cons_self)) fun y hy => ht y (List.mem_cons_of_mem _ hy)

end Cutting

/-- A word as it stands in a link that has been read. -/
structure IsWord (w : Text) : Prop where
  ne_nil : w ≠ []
  trimmed : trim w = w
  quoteless : '"' ∉ w

/-- The words of a text are words of a link, made of its characters. -/
theorem quotedWords_plain {w : Text} (h : w ∈ quotedWords t) :
    IsWord w ∧ ∀ c ∈ w, c ∈ t := by
  obtain ⟨hw, hne⟩ := List.mem_filter.1 h
  obtain ⟨p, hp, rfl⟩ := List.mem_map.1 hw
  have hstart : Cutting.Within (fun x => x ∈ t ∧ x ≠ '"') ⟨[], [], false⟩ := by
    intro p hp
    rw [List.mem_singleton.1 hp]
    exact List.forall_mem_nil _
  -- no quote is ever collected into a piece:
  have hwithin := (hstart.foldl fun x hx hquote => ⟨hx, hquote⟩).flushed p hp
  refine ⟨⟨by simpa using hne, trim_trim p, ?_⟩, ?_⟩
  · exact fun hquote => (hwithin _ (mem_of_mem_trim hquote)).2 rfl
  · exact fun c hc => (hwithin c (mem_of_mem_trim hc)).1

variable {w v : Text}

theorem quotedWords_linkWord (hw : IsWord w) : quotedWords (linkWord w) = [w] := by
  obtain ⟨hflushed, -⟩ := Cutting.foldl_step_linkWord [] hw.ne_nil hw.quoteless
  rw [quotedWords, hflushed]
  simp [hw.trimmed, hw.ne_nil]

theorem quotedWords_linkWords (hw : IsWord w) (hv : IsWord v) :
    quotedWords (linkWord w ++ ' ' :: linkWord v) = [w, v] := by
  obtain ⟨hflushed, hquoted⟩ := Cutting.foldl_step_linkWord [] hw.ne_nil hw.quoteless
  have hblank (c : Cutting) (hc : c.quoted = false) : c.step ' ' = ⟨c.flushed, [], false⟩ := by
    simp [Cutting.step, hc, isBlank]
  rw [List.nil_append] at hflushed
  obtain ⟨hflushed', -⟩ := Cutting.foldl_step_linkWord [w] hv.ne_nil hv.quoteless
  rw [quotedWords, List.foldl_append, List.foldl_cons, hblank _ hquoted, hflushed, hflushed']
  simp [hw.trimmed, hw.ne_nil, hv.trimmed, hv.ne_nil]

/-! ### Written words -/

theorem linkWord_ne_nil (w : Text) : linkWord w ≠ [] := by
  unfold linkWord
  split_ifs with h
  · exact List.cons_ne_nil _ _
  · intro hnil
    exact h (by rw [hnil]; rfl)

theorem trim_linkWord (hw : trim w = w) : trim (linkWord w) = linkWord w := by
  unfold linkWord
  split_ifs
  · exact trim_between (k := ['"']) (v := ['"']) rfl (by simp) rfl (by simp) w
  · exact hw

theorem trim_linkWords (hw : trim w = w) (hv : trim v = v) :
    trim (linkWord w ++ ' ' :: linkWord v) = linkWord w ++ ' ' :: linkWord v :=
  trim_between (trim_linkWord hw) (linkWord_ne_nil w) (trim_linkWord hv) (linkWord_ne_nil v) [' ']

theorem mem_linkWord {c : Char} (h : c ∈ linkWord w) : c = '"' ∨ c ∈ w := by
  unfold linkWord at h
  split_ifs at h
  · simp only [inQuotes, List.cons_append, List.mem_cons, List.mem_append, List.not_mem_nil,
      or_false] at h
    tauto
  · exact .inr h

end Vitae.Literal
