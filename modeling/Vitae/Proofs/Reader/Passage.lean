import Vitae.Proofs.Reader.Statement

/-!
# Passing over a stretch of text

A stretch of text leads from some open sections to others if the reader takes it as a whole,
whatever follows (`Reader.Leads`). Stretches that lead on can be put behind each other
(`Reader.Leads.append`), and a complete statement is such a stretch. The five kinds of complete
statements are cut off by `Reader.statement?_heading`, `Reader.statement?_label`,
`Reader.statement?_block`, `Reader.statement?_inclusion` and `Reader.statement?_close`.
-/

namespace Vitae.Reader

open Text

/-! ### Complete statements -/

theorem keyword?_blank_append {b : Text} (hb : AllBlank b) (word t : Text) :
    keyword? word (b ++ t) = keyword? word t := by
  induction b with
  | nil => rfl
  | cons c b ih =>
    obtain ⟨hc, hb⟩ := allBlank_cons.1 hb
    rw [List.cons_append, keyword?, if_pos hc, ih hb]

theorem keyword?_append {k : Text} (hk : k ∈ keywords) (t : Text) :
    keyword? [] (k ++ t) = some (k, t) := by
  rcases mem_keywords_iff.1 hk with rfl | rfl | rfl | rfl | rfl | rfl | rfl <;> rfl

theorem statement?_blank_append {b : Text} (hb : AllBlank b) (t : Text) :
    statement? (b ++ t) = statement? t := by
  rw [statement?, keyword?_blank_append hb, ← statement?]

theorem statement?_of_keyword {k : Text} (hk : k ∈ keywords) (t : Text) :
    statement? (k ++ t) = some (statementOf k t) := by
  rw [statement?, keyword?_append hk, Option.map_some]

variable {u v w : Text}

theorem statement?_heading (hu : '\n' ∉ u) :
    statement? ("section".toList ++ (u ++ '\n' :: v)) = some (.heading (trim u), v) := by
  rw [statement?_of_keyword (mem_keywords_iff.2 (.inl rfl)), statementOf, if_pos rfl,
    before_append_cons hu, behind_append_cons hu]

theorem statement?_label (hu : ':' ∉ u) (hw : '\n' ∉ w) :
    statement? ("label".toList ++ (u ++ ':' :: (w ++ '\n' :: v))) = some (.label u w, v) := by
  rw [statement?_of_keyword (mem_keywords_iff.2 (by simp)), statementOf, if_neg (by decide),
    if_pos rfl, before_append_cons hu, behind_append_cons hu, before_append_cons hw,
    behind_append_cons hw]

theorem statement?_block (hu : ':' ∉ u) :
    statement? ("text".toList ++ (u ++ ':' :: w)) =
      some (.block u (Prose.read w).body (Prose.read w).closed, (Prose.read w).rest) := by
  rw [statement?_of_keyword (mem_keywords_iff.2 (by simp)), statementOf, if_neg (by decide),
    if_neg (by decide), if_pos rfl]
  simp only [before_append_cons hu, behind_append_cons hu]

theorem statement?_inclusion (hu : '\n' ∉ u) :
    statement? ("@import".toList ++ (u ++ '\n' :: v)) = some (.inclusion u, v) := by
  rw [statement?_of_keyword (mem_keywords_iff.2 (by simp)), statementOf, if_neg (by decide),
    if_neg (by decide), if_neg (by decide), if_pos rfl, before_append_cons hu,
    behind_append_cons hu]

theorem statement?_close (v : Text) : statement? ("end".toList ++ v) = some (.close, v) := by
  rw [statement?_of_keyword (mem_keywords_iff.2 (by simp)), statementOf, if_neg (by decide),
    if_neg (by decide), if_neg (by decide), if_neg (by decide), if_pos rfl]

/-! ### Stretches -/

variable (env : Settings) (opened : List Text) (nested : Text → Text → Reading)

/-- The text `t` is read as a whole, whatever follows it: it yields `y`, and then the sections
`titles'` are open instead of `titles`. -/
def Leads (titles : List Text) (t : Text) (titles' : List Text) (y : Yield) : Prop :=
  ∀ v, course env opened nested ⟨.seeking [], titles⟩ (t ++ v) =
    (course env opened nested ⟨.seeking [], titles'⟩ v).after y

variable {env opened nested} {titles titles' titles'' : List Text} {t : Text} {y z : Yield}

theorem leads_nil : Leads env opened nested titles [] titles .empty :=
  fun _ => rfl

theorem Leads.append (ht : Leads env opened nested titles t titles' y)
    (hu : Leads env opened nested titles' u titles'' z) :
    Leads env opened nested titles (t ++ u) titles'' (y ++ z) := by
  intro v
  rw [List.append_assoc, ht, hu, Reading.after_after]

theorem Leads.blank_append {b : Text} (hb : AllBlank b)
    (ht : Leads env opened nested titles t titles' y) :
    Leads env opened nested titles (b ++ t) titles' y := by
  intro v
  rw [List.append_assoc, course_blank_append env opened nested hb, ht]

theorem Leads.append_blank {b : Text} (ht : Leads env opened nested titles t titles' y)
    (hb : AllBlank b) : Leads env opened nested titles (t ++ b) titles' y := by
  intro v
  rw [List.append_assoc, ht, course_blank_append env opened nested hb]

/-- A statement that stays as it is, whatever follows, is passed over. -/
theorem course_of_stays {rest : Text} {st : Statement}
    (ht : ∀ v, statement? (t ++ v) = some (st, rest ++ v))
    (halt : (perform env opened nested titles st).halt = none) (v : Text) :
    course env opened nested ⟨.seeking [], titles⟩ (t ++ v) =
      (course env opened nested ⟨.seeking [], (perform env opened nested titles st).state.opened⟩
        (rest ++ v)).after (perform env opened nested titles st).yield := by
  rw [course_of_statement env opened nested titles (ht v), resume, halt]
  rw [← perform_seeks env opened nested titles st halt]

/-- A complete statement leads on. -/
theorem leads_of_statement {st : Statement} (ht : ∀ v, statement? (t ++ v) = some (st, v))
    (halt : (perform env opened nested titles st).halt = none) :
    Leads env opened nested titles t (perform env opened nested titles st).state.opened
      (perform env opened nested titles st).yield :=
  @course_of_stays _ _ _ _ _ [] _ ht halt

/-- A stretch may begin with a statement that stays as it is. -/
theorem leads_cons {rest : Text} {st : Statement}
    (ht : ∀ v, statement? (t ++ v) = some (st, rest ++ v))
    (halt : (perform env opened nested titles st).halt = none)
    (hrest : Leads env opened nested (perform env opened nested titles st).state.opened rest titles'
      z) :
    Leads env opened nested titles t titles'
      ((perform env opened nested titles st).yield ++ z) := by
  intro v
  rw [course_of_stays ht halt, hrest, Reading.after_after]

/-- Where nothing follows, the course of a stretch is what it yields. -/
theorem Leads.course_eq (ht : Leads env opened nested titles t titles' y) :
    course env opened nested ⟨.seeking [], titles⟩ t = ⟨y, ⟨.seeking [], titles'⟩, 0, none⟩ := by
  have h := ht []
  rw [List.append_nil, course_seeking_nil] at h
  rw [h, Reading.after, Yield.append_empty]

/-- A document that leads the reader to its end is read without a halt. -/
theorem read_of_leads {env : Settings} {text b : Text} {titles : List Text} {y : Yield}
    (h : Leads env opened (importing env opened) [] text titles y) (hb : AllBlank b) :
    (env.read opened (text ++ b)).yield = y ∧ (env.read opened (text ++ b)).halt = none := by
  have hread := read_unplaced env opened (text ++ b)
  have hcourse : course env opened (importing env opened) .initial (text ++ b) = _ :=
    (h.append_blank hb).course_eq
  rw [hcourse] at hread
  exact ⟨congrArg Reading.yield hread, congrArg Reading.halt hread⟩

end Vitae.Reader
