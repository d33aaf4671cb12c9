import Vitae.Proofs.Text.Trim
import Vitae.Writer

/-!
# Lines of a document

A document is written as its lines, each with a newline behind it (`Writer.document_eq`), and prose
that is cut into lines comes together again (`Writer.unlines_lines`).
-/

namespace Vitae.Writer

open Text

/-- The text of some lines. -/
def unlines (ls : List Text) : Text :=
  ls.flatMap (· ++ ['\n'])

@[simp] theorem unlines_nil : unlines [] = [] := rfl

@[simp] theorem unlines_cons (l : Text) (ls : List Text) :
    unlines (l :: ls) = l ++ '\n' :: unlines ls := by
  simp only [unlines, List.flatMap_cons, List.append_assoc, List.singleton_append]

@[simp] theorem unlines_append (ks ls : List Text) :
    unlines (ks ++ ls) = unlines ks ++ unlines ls :=
  List.flatMap_append

theorem joinWith_newline {ls : List Text} (h : ls ≠ []) :
    joinWith ['\n'] ls ++ ['\n'] = unlines ls := by
  induction ls with
  | nil => exact absurd rfl h
  | cons l ls ih =>
    cases ls with
    | nil => simp [joinWith]
    | cons k ls =>
      have hrest := ih (List.cons_ne_nil k ls)
      rw [unlines_cons, ← hrest]
      simp [joinWith, List.intercalate_cons_cons]

theorem unlines_lines (t : Text) : unlines (lines t) = t ++ ['\n'] := by
  unfold lines
  induction t with
  | nil => rfl
  | cons c t ih =>
    rw [pieces]
    by_cases hc : c = '\n'
    · simp only [hc, beq_self_eq_true, ↓reduceIte, unlines_cons, ih, List.nil_append,
        List.cons_append]
    · simp only [beq_iff_eq, hc, ↓reduceIte]
      cases hp : pieces (· == '\n') t with
      | nil =>
        rw [hp] at ih
        simp at ih
      | cons p ps =>
        rw [hp] at ih
        simp only [unlines_cons, List.cons_append] at ih ⊢
        rw [ih]

/-- The document of a forest is its lines; without lines it is an empty line. -/
theorem document_eq {ns : List Node} {ls : List Text} (h : statements 0 ns = .ok ls) :
    ∃ b, AllBlank b ∧ document ns = .ok (unlines ls ++ b) := by
  have hdocument : document ns = .ok (joinWith ['\n'] ls ++ ['\n']) := by
    rw [document, h]
    rfl
  by_cases hls : ls = []
  · refine ⟨['\n'], allBlank_newline, ?_⟩
    rw [hdocument, hls]
    rfl
  · exact ⟨[], allBlank_nil, by rw [hdocument, joinWith_newline hls, List.append_nil]⟩

end Vitae.Writer
