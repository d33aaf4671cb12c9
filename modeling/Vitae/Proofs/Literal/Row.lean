import Vitae.Instant.Reading
import Vitae.Proofs.Literal.Stage

/-!
# Rows of stages

A row of stages can be cut anywhere (`Stage.applyAll_append`), and a node that one stage makes is
handed to no later one (`Stage.getElem?_handed`). The two stages that read never both find something
in a text (`Stage.eq_text_of_readDate`), and what a stage does not find it leaves alone, blanks
included. So neighbours that read can change places (`Stage.applyAll_exchange`), and to read a second
time is of no use as long as no quotes are removed in between (`Stage.applyAll_repeated`): removed
quotes can bring a keyword to light.
-/

namespace Vitae.Stage

open Text

variable (readInstant : Text → Option Instant)

/-- The stages that are handed a literal, each with the literal that it is handed. A node ends the
row. -/
def handed : List Stage → Literal → List (Stage × Literal)
  | [], _ => []
  | _ :: _, .node _ => []
  | s :: stages, .text t => (s, .text t) :: handed stages (s.apply readInstant t)

variable {readInstant} {x : Literal} {s : Stage} {A B M : List Stage} {t w : Text}

/-! ### Cutting a row -/

theorem applyAll_append :
    applyAll readInstant (A ++ B) x = applyAll readInstant B (applyAll readInstant A x) :=
  List.foldl_append

theorem applyAll_cons_text :
    applyAll readInstant (s :: B) (.text t) = applyAll readInstant B (s.apply readInstant t) := rfl

/-- The stage behind the row `A` is handed what `A` makes of the literal, unless this is a node. -/
theorem getElem?_handed : (handed readInstant (A ++ s :: B) x)[A.length]? =
    match applyAll readInstant A x with
    | .text t => some (s, .text t)
    | .node _ => none := by
  induction A generalizing x with
  | nil => cases x <;> rfl
  | cons s' A ih =>
    cases x with
    | text t =>
      rw [applyAll_cons_text, ← ih]
      rfl
    | node n =>
      rw [applyAll_node]
      rfl

theorem text_of_mem_handed {call : Stage × Literal} (h : call ∈ handed readInstant A x) :
    ∃ t, call.2 = .text t := by
  induction A generalizing x with
  | nil => cases h
  | cons s A ih =>
    cases x with
    | node n => cases h
    | text t =>
      rcases List.mem_cons.1 h with rfl | hmem
      · exact ⟨t, rfl⟩
      · exact ih hmem

/-! ### Stages that read -/

/-- Where the stage finds nothing, it leaves the text as it is. -/
def Spares (s : Stage) : Prop :=
  ∀ readInstant t w, s.apply readInstant t = .text w → w = t

theorem spares_date : Spares .date :=
  fun _ _ _ => eq_of_readDate

theorem spares_url : Spares .url :=
  fun _ _ _ => eq_of_readLink

theorem spares_of_mem (hs : s ∈ standard) (hne : s ≠ .unwrap) : s.Spares := by
  rcases mem_standard_iff.1 hs with rfl | rfl | rfl
  · exact absurd rfl hne
  · exact spares_date
  · exact spares_url

theorem eq_of_applyAll (hM : ∀ m ∈ M, m.Spares)
    (h : applyAll readInstant M (.text t) = .text w) : w = t := by
  induction M with
  | nil => exact (Literal.text.inj h).symm
  | cons s M ih =>
    obtain ⟨hs, hM⟩ := List.forall_mem_cons.1 hM
    rw [applyAll_cons_text] at h
    cases happly : s.apply readInstant t with
    | node n =>
      rw [happly, applyAll_node] at h
      cases h
    | text t' =>
      obtain rfl := hs _ _ _ happly
      exact ih hM (happly ▸ h)

theorem prefix_of_afterKeyword? {keyword rest : Text}
    (h : Literal.afterKeyword? keyword t = some rest) : keyword <+: trim t := by
  by_contra hprefix
  rw [Literal.afterKeyword?_of_not_prefix hprefix] at h
  cases h

/-- A text that is a date is no link: it begins with the other keyword. -/
theorem eq_text_of_readDate {n : Node} (h : readDate readInstant t = .node n) :
    readLink t = .text t := by
  cases hdate : Literal.afterKeyword? dateKeyword t with
  | none =>
    rw [readDate, hdate] at h
    cases h
  | some rest =>
    have hurl : ¬urlKeyword <+: trim t := by
      intro hprefix
      have hle : urlKeyword.length ≤ dateKeyword.length := by decide
      have hnested := List.prefix_of_prefix_length_le hprefix (prefix_of_afterKeyword? hdate) hle
      revert hnested
      decide
    rw [readLink, Literal.afterKeyword?_of_not_prefix hurl]

/-! ### Rearranged rows -/

theorem applyAll_exchange (B : List Stage) (x : Literal) :
    applyAll readInstant (.date :: .url :: B) x = applyAll readInstant (.url :: .date :: B) x := by
  cases x with
  | node n => rw [applyAll_node, applyAll_node]
  | text t =>
    rw [applyAll_cons_text, applyAll_cons_text]
    cases hdate : Stage.date.apply readInstant t with
    | node n =>
      have hlink : Stage.url.apply readInstant t = .text t := eq_text_of_readDate hdate
      rw [hlink, applyAll_cons_text, hdate, applyAll_node, applyAll_node]
    | text t' =>
      obtain rfl := eq_of_readDate hdate
      rw [applyAll_cons_text]
      cases hlink : Stage.url.apply readInstant t' with
      | node n => rw [applyAll_node, applyAll_node]
      | text t =>
        obtain rfl := eq_of_readLink hlink
        rw [applyAll_cons_text, hdate]

/-- A stage that spares what it does not read is of no use a second time, as long as all stages in
between are such stages. -/
theorem applyAll_repeated (hs : s.Spares) (hM : ∀ m ∈ M, m.Spares) (B : List Stage) (x : Literal) :
    applyAll readInstant (s :: M ++ s :: B) x = applyAll readInstant (s :: M ++ B) x := by
  cases x with
  | node n => rw [applyAll_node, applyAll_node]
  | text t =>
    rw [List.cons_append, List.cons_append, applyAll_cons_text, applyAll_cons_text,
      applyAll_append, applyAll_append]
    cases happly : s.apply readInstant t with
    | node n => rw [applyAll_node, applyAll_node, applyAll_node]
    | text t' =>
      obtain rfl := hs _ _ _ happly
      cases hbetween : applyAll readInstant M (.text t') with
      | node n => rw [applyAll_node, applyAll_node]
      | text t =>
        obtain rfl := eq_of_applyAll hM hbetween
        rw [applyAll_cons_text, happly]

/-- **How a row of stages can be rearranged.** For every literal and every reader of instants, let
`make` be what a row makes of the literal.

1. A row can be cut anywhere: what stands behind the cut goes on with what stands before it has made.
2. A stage is handed what the stages before it have made, if this is a text. No stage is handed a
   node, so a node that has been made is what the whole row makes.
3. A date and a link that are read next to each other can be read in either order.
4. What has been read for a date, or for a link, need not be read for it again by the stages of a
   document before quotes have been removed. -/
theorem applyAll_rearranged (readInstant : Text → Option Instant) (x : Literal)
    (A B : List Stage) :
    let make (stages : List Stage) := applyAll readInstant stages x
    make (A ++ B) = applyAll readInstant B (make A) ∧
    ((∀ call ∈ handed readInstant A x, ∃ t, call.2 = .text t) ∧
      (∀ s, (handed readInstant (A ++ s :: B) x)[A.length]? =
        match make A with
        | .text t => some (s, .text t)
        | .node _ => none) ∧
      ∀ n, make A = .node n → make (A ++ B) = .node n) ∧
    make (A ++ .date :: .url :: B) = make (A ++ .url :: .date :: B) ∧
    ∀ s M, s = .date ∨ s = .url → M ⊆ standard → .unwrap ∉ M →
      make (A ++ (s :: M ++ s :: B)) = make (A ++ (s :: M ++ B)) := by
  intro make
  refine ⟨applyAll_append, ⟨fun call hcall => text_of_mem_handed hcall, fun s => getElem?_handed,
    fun n hn => ?_⟩, ?_, fun s M hs hnamed hM => ?_⟩
  · simp only [make] at hn ⊢
    rw [applyAll_append, hn, applyAll_node]
  · simp only [make]
    rw [applyAll_append, applyAll_append, applyAll_exchange]
  · have hspares : s.Spares := by
      rcases hs with rfl | rfl
      · exact spares_date
      · exact spares_url
    have hbetween : ∀ m ∈ M, m.Spares := fun m hm =>
      spares_of_mem (hnamed hm) (ne_of_mem_of_not_mem hm hM)
    simp only [make]
    rw [applyAll_append, applyAll_append (B := s :: M ++ B), applyAll_repeated hspares hbetween]

/-- A date in quotes need not be looked for again behind the stage of the links. In front of the
stage that removes its quotes it has not been found. -/
theorem applyAll_rearranged_quoted :
    let make (stages : List Stage) :=
      applyAll (Instant.read? 2026) stages (.text "\"date 2020-01-01\"".toList)
    [Stage.url] ⊆ standard ∧ Stage.unwrap ∉ [Stage.url] ∧
      make [.unwrap, .date, .url, .date, .url] = make [.unwrap, .date, .url, .url] ∧
      make [.date, .unwrap, .date] ≠ make [.date, .unwrap] := by
  intro make
  have hnamed : [Stage.url] ⊆ standard := by simp [standard]
  have hfree : Stage.unwrap ∉ [Stage.url] := by
    rw [List.mem_singleton]
    intro hsame
    have hquotes : Literal.text [] = Literal.text ['"', '"'] :=
      congrArg (fun s => s.apply (fun _ => none) ['"', '"']) hsame
    cases hquotes
  refine ⟨hnamed, hfree, ?_, ?_⟩
  · exact (applyAll_rearranged (Instant.read? 2026) _ [.unwrap] [.url]).2.2.2 .date [.url] (.inl rfl)
      hnamed hfree
  · intro hsame
    have hkind := congrArg (fun | .text _ => true | .node _ => false) hsame
    revert hkind
    decide +kernel

end Vitae.Stage
