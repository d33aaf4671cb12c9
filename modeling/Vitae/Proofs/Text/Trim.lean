import Mathlib.Data.List.DropRight
import Vitae.Text.Basic

/-!
# Trimmed texts

A text is a run of blanks, its trimmed form and another run of blanks (`Text.exists_eq_trim`), and
blanks at the ends never matter to `trim` (`Text.trim_append`). A text is its own trimmed form
exactly if it neither starts nor ends with a blank (`Text.trim_eq_self_iff`).

Where the blanks within a text do not matter either, `Text.solid` leaves them out.
-/

namespace Vitae.Text

/-- A text of blanks only. -/
def AllBlank (t : Text) : Prop := ∀ c ∈ t, isBlank c = true

theorem allBlank_nil : AllBlank [] := by simp [AllBlank]

theorem allBlank_cons {c : Char} {t : Text} :
    AllBlank (c :: t) ↔ isBlank c = true ∧ AllBlank t := by
  simp [AllBlank]

theorem allBlank_append {a b : Text} : AllBlank (a ++ b) ↔ AllBlank a ∧ AllBlank b :=
  List.forall_mem_append

theorem notMem_of_allBlank {b : Text} (hb : AllBlank b) {c : Char} (hc : isBlank c = false) :
    c ∉ b := by
  intro hmem
  rw [hb c hmem] at hc
  cases hc

theorem allBlank_replicate_space (n : Nat) : AllBlank (List.replicate n ' ') := by
  intro c hc
  rw [List.eq_of_mem_replicate hc]
  decide

theorem allBlank_space : AllBlank [' '] :=
  allBlank_replicate_space 1

theorem allBlank_newline : AllBlank ['\n'] := by
  intro c hc
  rw [List.mem_singleton.1 hc]
  decide

theorem allBlank_takeWhile (t : Text) : AllBlank (t.takeWhile isBlank) :=
  fun _ hc => List.mem_takeWhile_imp hc

/-! ### The two ends -/

theorem trimStart_append {a t : Text} (ha : AllBlank a) : trimStart (a ++ t) = trimStart t :=
  List.dropWhile_append_of_pos ha

theorem trimEnd_append {t b : Text} (hb : AllBlank b) : trimEnd (t ++ b) = trimEnd t := by
  unfold trimEnd
  rw [List.reverse_append, List.dropWhile_append_of_pos fun c hc => hb c (by simpa using hc)]

theorem exists_eq_trimStart (t : Text) : ∃ a, AllBlank a ∧ t = a ++ trimStart t :=
  ⟨_, allBlank_takeWhile t, List.takeWhile_append_dropWhile.symm⟩

theorem exists_eq_trimEnd (t : Text) : ∃ b, AllBlank b ∧ t = trimEnd t ++ b := by
  refine ⟨t.rtakeWhile isBlank, fun c hc => List.mem_rtakeWhile_imp hc, ?_⟩
  exact (List.rdropWhile_append_rtakeWhile (p := isBlank) (l := t)).symm

theorem trimStart_eq_self_iff {t : Text} :
    trimStart t = t ↔ ∀ h : t ≠ [], isBlank (t.head h) = false := by
  cases t with
  | nil => simp [trimStart]
  | cons c t =>
    simp only [trimStart, List.dropWhile_cons, List.head_cons]
    cases hc : isBlank c
    · simp
    · simp only [↓reduceIte, ne_eq, reduceCtorEq, not_false_eq_true, Bool.true_eq_false, imp_false,
        not_true_eq_false, iff_false]
      intro h
      have := (List.dropWhile_suffix isBlank (l := t)).length_le
      rw [h, List.length_cons] at this
      omega

theorem trimEnd_eq_self_iff {t : Text} :
    trimEnd t = t ↔ ∀ h : t ≠ [], isBlank (t.getLast h) = false := by
  have h := List.rdropWhile_eq_self_iff (p := isBlank) (l := t)
  simp only [Bool.not_eq_true] at h
  exact h

theorem trimEnd_trimEnd (t : Text) : trimEnd (trimEnd t) = trimEnd t :=
  List.rdropWhile_idempotent isBlank t

/-! ### Both ends -/

theorem trimStart_trim (t : Text) : trimStart (trim t) = trim t := by
  refine trimStart_eq_self_iff.2 fun h => ?_
  obtain ⟨b, -, hb⟩ := exists_eq_trimEnd (trimStart t)
  have hne : trimStart t ≠ [] := fun h0 => h (by unfold trim; rw [h0]; rfl)
  have hidem : trimStart (trimStart t) = trimStart t := List.dropWhile_idempotent isBlank t
  have hhead := trimStart_eq_self_iff.1 hidem hne
  have hsame : (trimStart t).head hne = (trim t).head h := by
    simp only [← trim.eq_1] at hb
    rw [← Option.some_inj, ← List.head?_eq_some_head, ← List.head?_eq_some_head, hb,
      List.head?_append_of_ne_nil _ h]
  rw [← hsame]
  exact hhead

theorem trimEnd_trim (t : Text) : trimEnd (trim t) = trim t :=
  trimEnd_trimEnd _

@[simp] theorem trim_trim (t : Text) : trim (trim t) = trim t := by
  rw [trim.eq_1 (trim t), trimStart_trim, trimEnd_trim]

/-- Every text is its trimmed form between two runs of blanks. -/
theorem exists_eq_trim (t : Text) : ∃ a b, AllBlank a ∧ AllBlank b ∧ t = a ++ (trim t ++ b) := by
  obtain ⟨a, ha, hta⟩ := exists_eq_trimStart t
  obtain ⟨b, hb, htb⟩ := exists_eq_trimEnd (trimStart t)
  refine ⟨a, b, ha, hb, ?_⟩
  unfold trim
  rw [← htb, ← hta]

theorem trim_append_blank {t b : Text} (hb : AllBlank b) : trim (t ++ b) = trim t := by
  unfold trim
  by_cases ht : AllBlank t
  · have h1 : trimStart (t ++ b) = trimStart b := trimStart_append ht
    have h2 : trimStart b = [] := List.dropWhile_eq_nil_iff.2 hb
    have h3 : trimStart t = [] := List.dropWhile_eq_nil_iff.2 ht
    rw [h1, h2, h3]
  · have h1 : trimStart (t ++ b) = trimStart t ++ b := by
      have hne : (t.dropWhile isBlank) ≠ [] := fun h => ht (List.dropWhile_eq_nil_iff.1 h)
      unfold trimStart
      rw [List.dropWhile_append, if_neg (by simpa using hne)]
    rw [h1, trimEnd_append hb]

/-- Blanks at the ends do not matter to the trimmed form. -/
theorem trim_append {a t b : Text} (ha : AllBlank a) (hb : AllBlank b) :
    trim (a ++ (t ++ b)) = trim t := by
  rw [← trim_append_blank (t := t) hb]
  unfold trim
  rw [trimStart_append ha]

theorem trim_blank_append {a t : Text} (ha : AllBlank a) : trim (a ++ t) = trim t := by
  simpa using trim_append (t := t) ha allBlank_nil

@[simp] theorem trim_cons_space (t : Text) : trim (' ' :: t) = trim t :=
  trim_blank_append (a := [' ']) allBlank_space

/-- A text is trimmed if neither its first nor its last character is blank. -/
theorem trim_eq_self_iff {t : Text} :
    trim t = t ↔ ∀ h : t ≠ [], isBlank (t.head h) = false ∧ isBlank (t.getLast h) = false := by
  constructor
  · intro ht h
    have hs : trimStart t = t := by rw [← ht]; exact trimStart_trim t
    have he : trimEnd t = t := by rw [← ht]; exact trimEnd_trim t
    exact ⟨trimStart_eq_self_iff.1 hs h, trimEnd_eq_self_iff.1 he h⟩
  · intro h
    unfold trim
    rw [trimStart_eq_self_iff.2 fun hne => (h hne).1, trimEnd_eq_self_iff.2 fun hne => (h hne).2]

theorem trim_of_unbroken {p : Text} (hp : ∀ c ∈ p, isBlank c = false) : trim p = p :=
  trim_eq_self_iff.2 fun hne => ⟨hp _ (List.head_mem hne), hp _ (List.getLast_mem hne)⟩

/-- A text is trimmed if it starts and ends with trimmed texts that are not empty. -/
theorem trim_between {k v : Text} (hk : trim k = k) (hkne : k ≠ []) (hv : trim v = v)
    (hvne : v ≠ []) (u : Text) : trim (k ++ (u ++ v)) = k ++ (u ++ v) := by
  refine trim_eq_self_iff.2 fun hne => ⟨?_, ?_⟩
  · rw [List.head_append_of_ne_nil hkne]
    exact (trim_eq_self_iff.1 hk hkne).1
  · have hvne' : u ++ v ≠ [] := List.append_ne_nil_of_right_ne_nil u hvne
    rw [List.getLast_append_of_ne_nil hne hvne', List.getLast_append_of_ne_nil hvne' hvne]
    exact (trim_eq_self_iff.1 hv hvne).2

theorem mem_of_mem_trim {t : Text} {c : Char} (h : c ∈ trim t) : c ∈ t := by
  obtain ⟨a, b, -, -, ht⟩ := exists_eq_trim t
  rw [ht]
  simp [h]

@[simp] theorem trim_trimEnd (t : Text) : trim (trimEnd t) = trim t := by
  obtain ⟨b, hb, ht⟩ := exists_eq_trimEnd t
  conv_rhs => rw [ht, trim_append_blank hb]

/-! ### Texts without their blanks -/

/-- A text without its blanks. -/
def solid (t : Text) : Text :=
  t.filter (!isBlank ·)

variable {t u : Text}

@[simp] theorem solid_append (t u : Text) : solid (t ++ u) = solid t ++ solid u :=
  List.filter_append t u

theorem solid_of_allBlank (h : AllBlank t) : solid t = [] := by
  simpa [solid, AllBlank] using h

theorem mem_solid {c : Char} (hc : isBlank c = false) (h : c ∈ t) : c ∈ solid t := by
  simp [solid, hc, h]

@[simp] theorem solid_trim (t : Text) : solid (trim t) = solid t := by
  obtain ⟨a, b, ha, hb, ht⟩ := exists_eq_trim t
  conv_rhs => rw [ht]
  simp [solid_of_allBlank ha, solid_of_allBlank hb]

/-- A trimmed text begins with the first character that is not blank. -/
theorem head?_trim (t : Text) : (trim t).head? = (solid t).head? := by
  rw [← solid_trim]
  cases h : trim t with
  | nil => rfl
  | cons c u =>
    have hhead := trim_eq_self_iff.1 (trim_trim t)
    rw [h] at hhead
    have hc : isBlank c = false := (hhead (List.cons_ne_nil c u)).1
    simp [solid, hc]

theorem length_solid_le (h : u.Sublist t) : (solid u).length ≤ (solid t).length :=
  (h.filter _).length_le

end Vitae.Text
