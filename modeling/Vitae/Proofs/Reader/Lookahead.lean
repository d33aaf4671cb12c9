import Vitae.Proofs.Reader.Extension

/-!
# How far the reader looks ahead

A step of the reader looks at the character it takes; only the step that completes the identifier of
a block of prose looks at what follows, for the line that closes the block. Such a step uses no more
than there is (`Reader.used_step_le`). If it stays within the text `p`, and no line of `p` goes on
in what stands behind it, it would have been the same with anything else behind `p`
(`Reader.step_append`).
-/

namespace Vitae

open Text

/-! ### The closing word of a block -/

namespace TextBlock

open Reader

variable {start newline past : Nat} {t v line : Text}

theorem length_closing_line (h : trim line = terminator) :
    (line.takeWhile isBlank).length + terminator.length ≤ line.length := by
  obtain ⟨b, -, hline⟩ := Prose.closing_line_eq h
  conv_rhs => rw [hline]
  simp only [List.length_append]
  omega

/-- The closing word stands behind the newline that ends the body, and within the text. -/
theorem terminator?_place (h : terminator? start t = some (newline, past)) :
    ∃ a b, t = a ++ '\n' :: b ∧ newline = start + a.length ∧ newline + 4 ≤ past ∧
      past ≤ start + t.length := by
  induction t generalizing start with
  | nil => cases h
  | cons c t ih =>
    rw [terminator?] at h
    by_cases hc : c = '\n' ∧ trim (before '\n' t) = terminator
    · have hsome := (if_pos hc).symm.trans h
      obtain ⟨rfl, rfl⟩ := Prod.mk.inj (Option.some.inj hsome)
      have hword : terminator.length = 3 := rfl
      have hline := length_closing_line hc.2
      have hle : (before '\n' t).length ≤ t.length := (List.takeWhile_prefix _).length_le
      have hblank : ((t.takeWhile (· ≠ '\n')).takeWhile isBlank).length =
          ((before '\n' t).takeWhile isBlank).length := rfl
      refine ⟨[], t, by rw [hc.1]; rfl, rfl, ?_, ?_⟩
      · omega
      · rw [List.length_cons]
        omega
    · obtain ⟨a, b, rfl, hnewline, hpast, hle⟩ := ih ((if_neg hc).symm.trans h)
      refine ⟨c :: a, b, rfl, ?_, hpast, ?_⟩
      · rw [List.length_cons]
        omega
      · rw [List.length_cons]
        omega

theorem consumed_le (t : Text) : (find t).consumed ≤ t.length := by
  unfold find
  cases h : terminator? 0 t with
  | none => exact le_rfl
  | some offsets =>
    obtain ⟨newline, past⟩ := offsets
    obtain ⟨a, b, -, -, -, hle⟩ := terminator?_place h
    simpa using hle

end TextBlock

namespace Reader

open TextBlock

variable {p v : Text} {start newline past : Nat}

theorem lines_of_suffix {t u : Text} (h : t = [] ∨ EndsLine t) (hu : u <:+ t) :
    u = [] ∨ EndsLine u := by
  by_cases hnil : u = []
  · exact .inl hnil
  · rcases h with rfl | hline
    · exact .inl (List.suffix_nil.1 hu)
    · exact .inr (hline.of_suffix hu hnil)

/-- No line of the text `p` goes on in what stands behind it: `p` ends with a line, or what stands
behind it starts with a character that is not blank, so that a line that goes on closes no block. -/
def Severed (p v : Text) : Prop :=
  (p = [] ∨ EndsLine p) ∨ ∃ c u, v = c :: u ∧ isBlank c = false

theorem Severed.of_suffix {q : Text} (h : Severed p v) (hq : q <:+ p) : Severed q v :=
  h.imp_left fun hlines => lines_of_suffix hlines hq

/-- A line with the closing word does not go on with a character that is not blank. -/
theorem closing_line_of_nonblank {t x : Text} {c : Char} (hc : isBlank c = false)
    (hline : trim (t ++ c :: x) = terminator) :
    t.length < ((t ++ c :: x).takeWhile isBlank).length + terminator.length := by
  obtain ⟨b, hb, hdrop⟩ := Prose.drop_closing_line (u := []) hline
  rw [List.append_nil, List.append_nil] at hdrop
  by_contra hle
  -- otherwise the character would be one of the blanks behind the closing word:
  have hmem : c ∈ b := by
    rw [← hdrop, List.drop_append_of_le_length (Nat.le_of_not_lt hle)]
    simp
  rw [hb c hmem] at hc
  cases hc

theorem terminator?_append (hsome : terminator? start (p ++ v) = some (newline, past))
    (hpast : past ≤ start + p.length) (hp : Severed p v) (w : Text) :
    terminator? start (p ++ w) = some (newline, past) := by
  induction p generalizing start with
  | nil =>
    obtain ⟨a, b, -, hnewline, hword, -⟩ := terminator?_place hsome
    simp only [List.length_nil] at hpast
    omega
  | cons c p ih =>
    have hp' : Severed p v := hp.of_suffix (List.suffix_cons c p)
    rw [List.length_cons] at hpast
    rw [List.cons_append, terminator?] at hsome ⊢
    by_cases hmem : '\n' ∈ p
    -- the line at `c` ends within `p`:
    · have hline (u : Text) : (p ++ u).takeWhile (· ≠ '\n') = before '\n' p := before_append hmem
      simp only [hline] at hsome ⊢
      split_ifs at hsome ⊢ with hc
      · exact hsome
      · exact ih hsome (by omega) hp'
    -- the line at `c` goes on behind `p`, so it is not the closing line, and none comes in `p`:
    · exfalso
      by_cases hc : c = '\n' ∧ trim (before '\n' (p ++ v)) = terminator
      · have hclosing := (if_pos hc).symm.trans hsome
        obtain ⟨-, rfl⟩ := Prod.mk.inj (Option.some.inj hclosing)
        have hblank : (((p ++ v).takeWhile (· ≠ '\n')).takeWhile isBlank).length =
            ((before '\n' (p ++ v)).takeWhile isBlank).length := rfl
        have hword : terminator.length = 3 := rfl
        rcases hp' with (rfl | hends) | ⟨a, u, rfl, ha⟩
        · simp only [List.length_nil] at hpast
          omega
        · exact hmem hends.newline_mem
        · have hne : a ≠ '\n' := by
            rintro rfl
            exact absurd ha (by decide)
          have hsplit : before '\n' (p ++ a :: u) = p ++ a :: before '\n' u := by
            rw [before_append_of_not_mem hmem, before,
              List.takeWhile_cons_of_pos (by simpa using hne)]
            rfl
          have hlt := closing_line_of_nonblank ha (hsplit ▸ hc.2)
          rw [← hsplit] at hlt
          omega
      · obtain ⟨a, b, hab, hnewline, hword, -⟩ := terminator?_place ((if_neg hc).symm.trans hsome)
        have hlt : a.length < p.length := by omega
        have hnext : (p ++ v)[a.length]? = some '\n' := by simp [hab]
        rw [List.getElem?_append_left hlt] at hnext
        exact hmem (List.mem_of_getElem? hnext)

theorem find_append (hclosed : (find (p ++ v)).terminated = true)
    (hle : (find (p ++ v)).consumed ≤ p.length) (hp : Severed p v) (w : Text) :
    find (p ++ w) = find (p ++ v) := by
  unfold find at hclosed hle ⊢
  cases h : terminator? 0 (p ++ v) with
  | none =>
    rw [h] at hclosed
    cases hclosed
  | some offsets =>
    obtain ⟨newline, past⟩ := offsets
    rw [h] at hle
    have hpast : past ≤ p.length := hle
    obtain ⟨a, b, -, -, hword, -⟩ := terminator?_place h
    have hnewline : newline ≤ p.length := by omega
    rw [terminator?_append h (by omega) hp w]
    simp only [List.take_append_of_le_length hnewline]

/-! ### Steps -/

variable (env : Settings) (opened : List Text) (nested : Text → Text → Reading)

theorem addBlock_congr (s : ReaderState) (id : Text) {rest rest' : Text}
    (h : find rest' = find rest) : addBlock env s id rest' = addBlock env s id rest := by
  simp only [addBlock, h]

theorem used_step_le (s : ReaderState) (c : Char) (rest : Text) :
    (step env opened nested s c rest).used ≤ rest.length := by
  obtain ⟨phase, titles⟩ := s
  cases phase with
  | seeking word => exact Nat.zero_le _
  | filling header buffer =>
    unfold step
    dsimp only
    split_ifs with hc
    · cases header with
      | blockId => exact consumed_le rest
      | directive => exact (used_addImport env opened nested _ buffer).le.trans (Nat.zero_le _)
      | title | labelId | labelContent id => exact Nat.zero_le _
    · exact Nat.zero_le _

theorem step_of_find {s : ReaderState} {c : Char} {rest rest' : Text}
    (h : ∀ buffer, s.phase = .filling .blockId buffer → c = ':' → find rest' = find rest) :
    step env opened nested s c rest' = step env opened nested s c rest := by
  obtain ⟨phase, titles⟩ := s
  cases phase with
  | seeking word => rfl
  | filling header buffer =>
    unfold step
    dsimp only
    split_ifs with hc
    · cases header with
      | blockId => exact addBlock_congr env _ buffer (h buffer rfl hc)
      | title | labelId | labelContent id | directive => rfl
    · rfl

/-- A step that completes no block, or one that is closed within a text, does not depend on what
stands behind the text. -/
theorem step_append_of_closed {s : ReaderState} {c : Char}
    (hclosed : ∀ buffer, s.phase = .filling .blockId buffer → c = ':' →
      (find (p ++ v)).terminated = true ∧ (find (p ++ v)).consumed ≤ p.length)
    (hp : Severed p v) (w : Text) :
    step env opened nested s c (p ++ w) = step env opened nested s c (p ++ v) := by
  refine step_of_find env opened nested fun buffer hphase hc => ?_
  obtain ⟨hterminated, hle⟩ := hclosed buffer hphase hc
  exact find_append hterminated hle hp w

theorem consumed_of_not_terminated {t : Text} (h : (find t).terminated = false) :
    (find t).consumed = t.length := by
  unfold find at h ⊢
  cases hsome : terminator? 0 t with
  | none => rfl
  | some offsets =>
    rw [hsome] at h
    cases h

/-- **A step that stays within a text does not depend on what stands behind the text.** -/
theorem step_append {s : ReaderState} {c : Char} (hv : v ≠ [])
    (hused : (step env opened nested s c (p ++ v)).used ≤ p.length) (hp : Severed p v) (w : Text) :
    step env opened nested s c (p ++ w) = step env opened nested s c (p ++ v) := by
  refine step_append_of_closed env opened nested (fun buffer hphase hc => ?_) hp w
  obtain ⟨phase, titles⟩ := s
  obtain rfl : phase = .filling .blockId buffer := hphase
  have hstep : step env opened nested ⟨.filling .blockId buffer, titles⟩ c (p ++ v) =
      addBlock env ⟨.filling .blockId buffer, titles⟩ buffer (p ++ v) := if_pos hc
  have hle : (find (p ++ v)).consumed ≤ p.length := by
    rwa [hstep] at hused
  refine ⟨?_, hle⟩
  -- a block without a closing line would use up what stands behind `p` as well:
  by_contra hopen
  have hpos := List.length_pos_of_ne_nil hv
  rw [consumed_of_not_terminated (Bool.eq_false_iff.2 hopen), List.length_append] at hle
  omega

end Reader

end Vitae
