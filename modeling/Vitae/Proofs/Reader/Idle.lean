import Vitae.Proofs.Reader.Extension

/-!
# Texts that leave the shape of a tree alone

The shape of a tree is its sections and labels. A text is idle (`Reader.Idle`) if it consists of
whole statements that neither add to the shape nor close a section: blocks of prose with a closing
line, keywords without a meaning, an `end` outside every section, and imports of documents without
sections and labels.

What is written behind a text is read as if the text were not there exactly if the text is idle.
That an idle text has no effect is `Reader.Idle.leads`. The converse rests on
`Reader.fate_of_fenced`: a text either is passed over as a whole, and then adds to the shape, closes
a section or is idle, or it swallows what is written behind it, up to a bound that does not depend
on how much that is.
-/

namespace Vitae

open Text

/-- The sections and labels of an outline. -/
def Outline.shape (rows : Outline) : Outline :=
  rows.filter fun r => r.kind ≠ Node.blockKind

namespace Outline

variable (a b : Outline)

@[simp] theorem shape_append : (a ++ b).shape = a.shape ++ b.shape :=
  List.filter_append ..

theorem shape_eq_nil_iff {rows : Outline} :
    rows.shape = [] ↔ ∀ r ∈ rows, r.kind = Node.blockKind := by
  rw [shape, List.filter_eq_nil_iff]
  simp only [decide_eq_true_eq, ne_eq, not_not]

theorem shape_shift_eq_nil_iff (d : Nat) {rows : Outline} :
    (rows.shift d).shape = [] ↔ rows.shape = [] := by
  rw [shape_eq_nil_iff, shape_eq_nil_iff, shift, List.forall_mem_map]

end Outline

namespace Reader

variable (env : Settings) (opened : List Text) (nested : Text → Text → Reading)

/-- The directive names a document that is read without a halt and has neither sections nor
labels. -/
def QuietImport (directive : Text) : Prop :=
  ∃ path source, Import.target env.root directive = .ok path ∧ path ∉ opened ∧
    env.library.fetch path = .ok source ∧ (nested path source).halt = none ∧
      (nested path source).yield.rows.shape = []

/-- The text has no effect on sections and labels where `d` sections are open. -/
inductive Idle (d : Nat) : Text → Prop
  | blank {t : Text} (blank : AllBlank t) : Idle d t
  | block {t rest id body : Text} (first : statement? t = some (.block id body true, rest))
    (next : Idle d rest) : Idle d t
  | idle {t rest : Text} (first : statement? t = some (.idle, rest)) (next : Idle d rest) : Idle d t
  | close {t rest : Text} (top : d = 0) (first : statement? t = some (.close, rest))
    (next : Idle d rest) : Idle d t
  | inclusion {t rest directive : Text}
    (first : statement? t = some (.inclusion directive, rest))
    (quiet : QuietImport env opened nested directive) (next : Idle d rest) : Idle d t

variable {env opened nested} {titles : List Text} {t rest : Text}

/-! ### Idle texts have no effect -/

theorem endsLine_of_statement? {st : Statement} (hline : t = [] ∨ EndsLine t)
    (h : statement? t = some (st, rest)) : EndsLine t := by
  rcases hline with rfl | hline
  · cases h
  · exact hline

theorem endsLine_rest {st : Statement} (hline : EndsLine t) (h : statement? t = some (st, rest)) :
    rest = [] ∨ EndsLine rest := by
  by_cases hrest : rest = []
  · exact .inl hrest
  · exact .inr (hline.of_suffix (statement?_suffix h) hrest)

theorem stays_of_statement? {st : Statement} (hline : EndsLine t)
    (h : statement? t = some (st, rest)) (hlabel : ∀ id content, st ≠ .label id content)
    (hblock : ∀ id body, st ≠ .block id body false) (v : Text) :
    statement? (t ++ v) = some (st, rest ++ v) := by
  cases extension_of_statement? hline h with
  | complete whole stays => exact stays v
  | labelCut isLabel swallows =>
    obtain ⟨id, content, hst⟩ := isLabel
    exact absurd hst (hlabel id content)
  | blockCut isBlock swallows =>
    obtain ⟨id, body, hst⟩ := isBlock
    exact absurd hst (hblock id body)
  | unclosed isBlock noClosing =>
    obtain ⟨id, body, hst⟩ := isBlock
    exact absurd hst (hblock id body)

theorem addImport_of_quiet {directive : Text} (h : QuietImport env opened nested directive)
    (s : ReaderState) :
    ∃ y, addImport env opened nested s directive = ⟨s.seek, 0, y, none⟩ ∧ y.rows.shape = [] := by
  obtain ⟨path, source, target, notOpen, fetch, halt, hshape⟩ := h
  refine ⟨asked env path ++ (nested path source).yield.imported s.depth, ?_, ?_⟩
  · rw [addImport_of_notMem env opened nested s target notOpen, fetch]
    simp only [takeOver, halt]
  · exact (Outline.shape_shift_eq_nil_iff s.depth).2 hshape

/-- **An idle text has no effect**: what is written behind it is read as if it were not there. -/
theorem Idle.leads {d : Nat} (h : Idle env opened nested d t) (hline : t = [] ∨ EndsLine t)
    (hd : titles.length = d) :
    ∃ y, Leads env opened nested titles t titles y ∧ y.rows.shape = [] := by
  induction h with
  | blank blank => exact ⟨.empty, fun v => course_blank_append env opened nested blank _ _ v, rfl⟩
  | block first next ih =>
    have hlines := endsLine_of_statement? hline first
    have hstays := stays_of_statement? hlines first (by simp) (by simp)
    obtain ⟨z, hz, hshape⟩ := ih (endsLine_rest hlines first)
    refine ⟨_, leads_cons hstays rfl hz, ?_⟩
    rw [Yield.rows_append, Outline.shape_append, hshape]
    rfl
  | idle first next ih =>
    have hlines := endsLine_of_statement? hline first
    have hstays := stays_of_statement? hlines first (by simp) (by simp)
    obtain ⟨z, hz, hshape⟩ := ih (endsLine_rest hlines first)
    exact ⟨_, leads_cons hstays rfl hz, hshape⟩
  | close top first next ih =>
    have hlines := endsLine_of_statement? hline first
    have hstays := stays_of_statement? hlines first (by simp) (by simp)
    obtain ⟨z, hz, hshape⟩ := ih (endsLine_rest hlines first)
    obtain rfl : titles = [] := List.length_eq_zero_iff.1 (hd.trans top)
    exact ⟨_, leads_cons hstays rfl hz, hshape⟩
  | @inclusion t rest directive first quiet next ih =>
    have hlines := endsLine_of_statement? hline first
    have hstays := stays_of_statement? hlines first (by simp) (by simp)
    obtain ⟨z, hz, hshape⟩ := ih (endsLine_rest hlines first)
    obtain ⟨y, hy, hquiet⟩ := addImport_of_quiet quiet ⟨.seeking [], titles⟩
    have hperform : perform env opened nested titles (.inclusion directive) = _ := hy
    have hleads : Leads env opened nested titles t titles (_ ++ z) :=
      leads_cons hstays (by rw [hperform]) (by rw [hperform]; exact hz)
    refine ⟨_, hleads, ?_⟩
    rw [hperform, Yield.rows_append, Outline.shape_append, hquiet, hshape]
    rfl

/-! ### Texts that are not idle -/

/-- A text that cannot complete what the end of another text has cut off: it has no colon, and its
first word starts with an `s`. -/
structure Barren (v : Text) : Prop where
  colon : ':' ∉ v
  start : ∃ b w, AllBlank b ∧ v = b ++ 's' :: w

/-- Every colon has a closing line somewhere behind it. -/
def Fenced (t : Text) : Prop :=
  ∀ a b, t = a ++ ':' :: b → (Prose.read b).closed = true

theorem Fenced.of_suffix {u : Text} (h : Fenced t) (hs : u <:+ t) : Fenced u := by
  obtain ⟨p, rfl⟩ := hs
  rintro a b rfl
  exact h (p ++ a) b (List.append_assoc ..).symm

variable (env opened nested titles) in
/-- What becomes of a text before others: it is passed over as a whole, or it swallows what is
written behind it. -/
inductive Fate (t : Text) : Prop
  | passes (titles' : List Text) (y : Yield) (leads : Leads env opened nested titles t titles' y)
    (closes : y.rows.shape = [] → titles'.length ≤ titles.length)
    (idle : y.rows.shape = [] → titles'.length = titles.length →
      Idle env opened nested titles.length t)
  | swallows (bound : Nat)
    (few : ∀ v, Barren v →
      (course env opened nested ⟨.seeking [], titles⟩ (t ++ v)).yield.rows.shape.length ≤ bound)

/-- A statement that is passed over leaves the fate of a text to what follows the statement. -/
theorem Fate.cons {titles₁ : List Text} {y : Yield}
    (hstep : ∀ v, course env opened nested ⟨.seeking [], titles⟩ (t ++ v) =
      (course env opened nested ⟨.seeking [], titles₁⟩ (rest ++ v)).after y)
    (hcloses : y.rows.shape = [] → titles₁.length ≤ titles.length)
    (hidle : y.rows.shape = [] → titles₁.length = titles.length →
      Idle env opened nested titles.length rest → Idle env opened nested titles.length t)
    (h : Fate env opened nested titles₁ rest) : Fate env opened nested titles t := by
  cases h with
  | passes titles' z leads closes idle =>
    have hshape : (y ++ z).rows.shape = [] → y.rows.shape = [] ∧ z.rows.shape = [] := by
      rw [Yield.rows_append, Outline.shape_append, List.append_eq_nil_iff]
      exact id
    refine .passes titles' (y ++ z) (fun v => by rw [hstep, leads, Reading.after_after]) ?_ ?_
    · intro hnil
      exact (closes (hshape hnil).2).trans (hcloses (hshape hnil).1)
    · intro hnil hlength
      have hle := closes (hshape hnil).2
      have hle' := hcloses (hshape hnil).1
      -- neither part opens a section, so together they close none only if neither does:
      have hlength₁ : titles₁.length = titles.length := by omega
      refine hidle (hshape hnil).1 hlength₁ ?_
      rw [← hlength₁]
      exact idle (hshape hnil).2 (by omega)
  | swallows bound few =>
    refine .swallows (y.rows.shape.length + bound) fun v hv => ?_
    rw [hstep, Reading.yield_after, Yield.rows_append, Outline.shape_append, List.length_append]
    exact Nat.add_le_add_left (few v hv) _

theorem fate_of_halt {st : Statement} (hstays : ∀ v, statement? (t ++ v) = some (st, rest ++ v))
    {h : Halt} (halt : (perform env opened nested titles st).halt = some h) :
    Fate env opened nested titles t := by
  refine .swallows (perform env opened nested titles st).yield.rows.shape.length fun v _ => ?_
  rw [course_of_statement env opened nested titles (hstays v), resume, halt]

theorem fate_of_import {directive : Text}
    (hfirst : statement? t = some (.inclusion directive, rest))
    (hstays : ∀ v, statement? (t ++ v) = some (.inclusion directive, rest ++ v))
    (hrest : Fate env opened nested titles rest) : Fate env opened nested titles t := by
  obtain ⟨o, ho, hcase⟩ := addImport_cases env opened nested ⟨.seeking [], titles⟩ directive
  have hperform : perform env opened nested titles (.inclusion directive) = o := ho
  cases hcase with
  | read path source target notOpen fetch halt =>
    have hstep := course_of_stays hstays (by rw [hperform])
    rw [hperform] at hstep
    refine Fate.cons hstep (fun _ => le_rfl) (fun hnil _ hidle => ?_) hrest
    refine .inclusion hfirst ⟨path, source, target, notOpen, fetch, halt, ?_⟩ hidle
    exact (Outline.shape_shift_eq_nil_iff titles.length).1 hnil
  | noTarget | cycle | unreadable | halted => exact fate_of_halt hstays (by rw [hperform])

/-- A text whose first statement stays as it is has the fate of what follows, unless an import
halts. -/
theorem fate_of_stays {st : Statement} (hfirst : statement? t = some (st, rest))
    (hstays : ∀ v, statement? (t ++ v) = some (st, rest ++ v))
    (hblock : ∀ id body, st ≠ .block id body false)
    (hrest : ∀ titles, Fate env opened nested titles rest) : Fate env opened nested titles t := by
  cases st with
  | heading title =>
    exact Fate.cons (course_of_stays hstays rfl) (by rintro ⟨⟩) (by rintro ⟨⟩) (hrest _)
  | label id content =>
    exact Fate.cons (course_of_stays hstays rfl) (by rintro ⟨⟩) (by rintro ⟨⟩) (hrest _)
  | block id body closed =>
    cases closed with
    | false => exact absurd rfl (hblock id body)
    | true =>
      exact Fate.cons (course_of_stays hstays rfl) (fun _ => le_rfl)
        (fun _ _ hidle => .block hfirst hidle) (hrest _)
  | inclusion directive => exact fate_of_import hfirst hstays (hrest titles)
  | close =>
    have hdrop : titles.dropLast.length = titles.length - 1 := List.length_dropLast
    refine Fate.cons (course_of_stays hstays rfl) (fun _ => ?_) (fun _ hlength hidle => ?_)
      (hrest titles.dropLast)
    · exact hdrop ▸ Nat.sub_le _ _
    · have htop : titles.length = 0 := by
        have hlength' : titles.dropLast.length = titles.length := hlength
        omega
      exact .close htop hfirst hidle
  | idle =>
    exact Fate.cons (course_of_stays hstays rfl) (fun _ => le_rfl)
      (fun _ _ hidle => .idle hfirst hidle) (hrest _)

/-- **Lines with a closing line behind every colon are passed over as a whole or swallow what is
written behind them.** -/
theorem fate_of_fenced (t : Text) : ∀ titles : List Text, t = [] ∨ EndsLine t → Fenced t →
    Fate env opened nested titles t := by
  induction t using statement_induction with
  | none t hst =>
    intro titles hline hfenced
    by_cases hblank : AllBlank t
    · exact .passes titles .empty (fun v => course_blank_append env opened nested hblank _ _ v)
        (fun _ => le_rfl) (fun _ _ => .blank hblank)
    · refine .swallows 0 fun v hv => ?_
      obtain ⟨b, w, hb, rfl⟩ := hv.start
      obtain ⟨word, hcourse⟩ := course_of_no_statement env opened nested titles
        (statement?_dead hst hblank hb w)
      rw [hcourse]
      exact le_rfl
  | some t st rest hst ih =>
    intro titles hline hfenced
    have hlines := endsLine_of_statement? hline hst
    have hrest (titles' : List Text) : Fate env opened nested titles' rest :=
      ih titles' (endsLine_rest hlines hst) (hfenced.of_suffix (statement?_suffix hst))
    -- a statement that is cut off swallows what follows; fenced, no block is left unclosed:
    cases extension_of_statement? hlines hst with
    | complete whole stays => exact fate_of_stays hst stays whole hrest
    | labelCut isLabel swallows =>
      refine .swallows 1 fun v hv => ?_
      obtain ⟨id, hlabel⟩ := swallows v hv.colon
      rw [course_of_statement env opened nested titles hlabel]
      have hnil := course_seeking_nil env opened nested [] titles
      simp only [perform, addLabel, ReaderState.seek, resume, hnil]
      exact le_rfl
    | blockCut isBlock swallows =>
      refine .swallows 0 fun v hv => ?_
      obtain ⟨id, hblock⟩ := swallows v hv.colon
      rw [course_of_statement env opened nested titles hblock]
      have hnil := course_seeking_nil env opened nested [] titles
      simp only [perform, resume, hnil]
      exact le_rfl
    | unclosed isBlock noClosing =>
      obtain ⟨a, b, rfl, hopen⟩ := noClosing
      rw [hfenced a b rfl] at hopen
      cases hopen

end Reader

end Vitae
