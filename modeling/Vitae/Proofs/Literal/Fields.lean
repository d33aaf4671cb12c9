import Vitae.Proofs.Literal.Quotes
import Vitae.Proofs.Text.Cut

/-!
# Quoted words by fields

Cut at its quotes, a text is a row of fields that stand outside and inside of quotes by turns. A
field outside has its words between blanks, and a field inside is one word. The quoted words of a
text are the words of its fields in order (`Literal.quotedWords_by_fields`); a quote that is not
closed runs to the end of the text.

The cutting goes from character to character with a flag for the quotes. Over a whole field the flag
stays as it is, so the cutting of a field can be told at once (`Cutting.tidied_foldl_field`), and
the quote behind the field turns the flag and the parity of the number together.
-/

namespace Vitae.Literal

open Text

/-- The fields of a text between its quotes. -/
def fields (t : Text) : List Text :=
  pieces (· == '"') t

theorem fields_of_notMem {f : Text} (hf : '"' ∉ f) : fields f = [f] :=
  pieces_eq_singleton fun c hc => by simpa using ne_of_mem_of_not_mem hc hf

theorem fields_append_quote {f : Text} (hf : '"' ∉ f) (t : Text) :
    fields (f ++ '"' :: t) = f :: fields t := by
  rw [fields, pieces_append_cons (by decide), ← fields, ← fields, fields_of_notMem hf]
  rfl

/-- The words of the field with a number. The fields with even numbers stand outside of quotes. -/
def fieldWords (number : Nat) (field : Text) : List Text :=
  if number % 2 = 0 then words field
  else if (trim field).isEmpty then [] else [trim field]

/-- Pieces without the blanks at their ends, as far as something is left. -/
def tidied (ps : List Text) : List Text :=
  (ps.map trim).filter (!·.isEmpty)

theorem tidied_append (ps qs : List Text) : tidied (ps ++ qs) = tidied ps ++ tidied qs := by
  rw [tidied, List.map_append, List.filter_append]
  rfl

theorem tidied_singleton (p : Text) :
    tidied [p] = if (trim p).isEmpty then [] else [trim p] := by
  cases h : trim p <;> simp [tidied, h]

theorem tidied_unbroken {p : Text} (hp : ∀ c ∈ p, isBlank c = false) :
    tidied [p] = words p := by
  rw [tidied_singleton, words_of_unbroken hp, trim_of_unbroken hp]

namespace Cutting

theorem tidied_flushed (c : Cutting) : tidied c.flushed = tidied c.pieces ++ tidied [c.piece] := by
  unfold flushed
  split_ifs with h
  · have hnil : tidied [c.piece] = [] := by
      rw [List.isEmpty_iff.1 h]
      rfl
    rw [hnil, List.append_nil]
  · exact tidied_append _ _

/-- Characters that are neither quotes nor blanks make up one piece. -/
theorem foldl_step_unbroken (ps : List Text) {a : Text} (hquote : '"' ∉ a)
    (hblank : ∀ c ∈ a, isBlank c = false) : a.foldl step ⟨ps, [], false⟩ = ⟨ps, a, false⟩ :=
  foldl_step_plain _ fun c hc =>
    ⟨ne_of_mem_of_not_mem hc hquote, fun h => absurd h (by simp [hblank c hc])⟩

/-- Outside of quotes, the pieces of a field are its words. -/
theorem tidied_foldl_outside (ps : List Text) {f : Text} (hf : '"' ∉ f) :
    tidied (f.foldl step ⟨ps, [], false⟩).flushed = tidied ps ++ words f ∧
      (f.foldl step ⟨ps, [], false⟩).quoted = false := by
  induction f using cut_induction isBlank generalizing ps with
  | last a ha =>
    rw [foldl_step_unbroken ps hf ha, tidied_flushed, tidied_unbroken ha]
    exact ⟨rfl, rfl⟩
  | next a c b ha hc ih =>
    simp only [List.mem_append, List.mem_cons, not_or] at hf
    obtain ⟨hfa, hquote, hfb⟩ := hf
    -- the blank ends the word before it:
    have hblank : (⟨ps, a, false⟩ : Cutting).step c = ⟨flushed ⟨ps, a, false⟩, [], false⟩ := by
      rw [step, if_neg (Ne.symm hquote), if_pos (by simp [hc])]
    obtain ⟨hwords, hflag⟩ := ih (flushed ⟨ps, a, false⟩) hfb
    rw [List.foldl_append, foldl_step_unbroken ps hfa ha, List.foldl_cons, hblank]
    refine ⟨?_, hflag⟩
    rw [hwords, tidied_flushed, tidied_unbroken ha, words_append_blank hc, List.append_assoc]

/-- A whole field gives its words, and does not turn the flag. -/
theorem tidied_foldl_field (ps : List Text) (number : Nat) {f : Text} (hf : '"' ∉ f) :
    let c := f.foldl step ⟨ps, [], decide (number % 2 = 1)⟩
    tidied c.flushed = tidied ps ++ fieldWords number f ∧ c.quoted = decide (number % 2 = 1) := by
  intro c
  rcases Nat.mod_two_eq_zero_or_one number with heven | hodd
  · have hc : c = f.foldl step ⟨ps, [], false⟩ := by
      simp only [c, heven, Nat.zero_ne_one, decide_false]
    rw [hc, fieldWords, if_pos heven, heven]
    exact tidied_foldl_outside ps hf
  · have hplain : f.foldl step ⟨ps, [], true⟩ = ⟨ps, f, true⟩ :=
      foldl_step_plain ⟨ps, [], true⟩ fun x hx => ⟨ne_of_mem_of_not_mem hx hf, fun _ => rfl⟩
    have hc : c = ⟨ps, f, true⟩ := by simp only [c, hodd, decide_true, hplain]
    have hne : number % 2 ≠ 0 := by omega
    rw [hc, tidied_flushed, tidied_singleton, fieldWords, if_neg hne, hodd]
    exact ⟨rfl, rfl⟩

/-- The cutting of a text goes field by field. -/
theorem tidied_foldl (ps : List Text) (number : Nat) (t : Text) :
    tidied (t.foldl step ⟨ps, [], decide (number % 2 = 1)⟩).flushed =
      tidied ps ++ ((fields t).mapIdx fun i => fieldWords (number + i)).flatten := by
  induction t using stop_induction '"' generalizing ps number with
  | last f hf =>
    rw [fields_of_notMem hf, (tidied_foldl_field ps number hf).1]
    simp
  | next f t hf ih =>
    obtain ⟨hwords, hflag⟩ := tidied_foldl_field ps number hf
    have hturn : (!decide (number % 2 = 1)) = decide ((number + 1) % 2 = 1) := by
      rcases Nat.mod_two_eq_zero_or_one number with h | h <;> simp [h, Nat.add_mod]
    have hclose (c : Cutting) : c.step '"' = ⟨c.flushed, [], !c.quoted⟩ := by
      rw [step, if_pos rfl]
    rw [List.foldl_append, List.foldl_cons, hclose, hflag, hturn, ih, hwords,
      fields_append_quote hf, List.mapIdx_cons, List.flatten_cons, List.append_assoc]
    simp only [Nat.add_zero, Nat.add_assoc, Nat.add_comm 1]

end Cutting

/-! ### Characters -/

theorem solid_flatten_tidied (ps : List Text) : solid (tidied ps).flatten = solid ps.flatten := by
  induction ps with
  | nil => rfl
  | cons p ps ih =>
    have hhead : solid (tidied [p]).flatten = solid p := by
      rw [← solid_trim p, tidied_singleton]
      split_ifs with h
      · rw [List.isEmpty_iff.1 h]
        rfl
      · rw [List.flatten_singleton]
    rw [← List.singleton_append, tidied_append, List.flatten_append, solid_append, hhead, ih,
      List.flatten_append, List.flatten_singleton, solid_append]

theorem Cutting.flatten_flushed (c : Cutting) :
    c.flushed.flatten = c.pieces.flatten ++ c.piece := by
  unfold flushed
  split_ifs with h
  · rw [List.isEmpty_iff.1 h, List.append_nil]
  · rw [List.flatten_append, List.flatten_singleton]

/-- One character more is in the pieces, unless it is a quote or a blank. -/
theorem Cutting.solid_step (c : Cutting) (x : Char) :
    solid (c.step x).flushed.flatten =
      solid c.flushed.flatten ++ (solid [x]).filter (· ≠ '"') := by
  unfold Cutting.step
  split_ifs with hquote hblank
  · simp [flatten_flushed, hquote, solid]
  · have hb : isBlank x = true := (Bool.and_eq_true_iff.1 hblank).1
    simp [flatten_flushed, solid, hb]
  · have hkeep : (solid [x]).filter (· ≠ '"') = solid [x] :=
      List.filter_eq_self.2 fun y hy => by
        rw [List.mem_singleton.1 (List.mem_of_mem_filter hy)]
        simpa using hquote
    rw [hkeep, flatten_flushed, flatten_flushed, ← solid_append, List.append_assoc]

theorem Cutting.solid_foldl (c : Cutting) (t : Text) :
    solid (t.foldl step c).flushed.flatten =
      solid c.flushed.flatten ++ (solid t).filter (· ≠ '"') := by
  induction t generalizing c with
  | nil => simp [solid]
  | cons x t ih =>
    rw [List.foldl_cons, ih, solid_step, List.append_assoc, ← List.filter_append, ← solid_append,
      List.singleton_append]

/-- **The quoted words of a text are the words of its fields, in order.** All of them are trimmed,
not empty and free of quotes, and together they have the characters of the text but for blanks and
quotes. -/
theorem quotedWords_by_fields (t : Text) :
    quotedWords t = ((fields t).mapIdx fieldWords).flatten ∧ (∀ w ∈ quotedWords t, IsWord w) ∧
      solid (quotedWords t).flatten = (solid t).filter (· ≠ '"') := by
  refine ⟨?_, fun w hw => (quotedWords_plain hw).1, ?_⟩
  · have hfields := Cutting.tidied_foldl [] 0 t
    simp only [Nat.zero_add] at hfields
    exact hfields
  · have hsolid := Cutting.solid_foldl ⟨[], [], false⟩ t
    exact (solid_flatten_tidied _).trans hsolid

example : quotedWords "a\"b  c \"d e\" \"\" f".toList =
    ["a", "b  c", "d", "e", "f"].map String.toList := by
  decide

end Vitae.Literal
