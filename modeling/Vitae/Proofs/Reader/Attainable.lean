import Vitae.Proofs.Reader.Grammar

/-!
# The nodes that documents have

What stands in a document limits its nodes: a title is a trimmed line, an identifier has no colon,
the content of a label is a line, and prose has no line that closes it but perhaps its first.
`Grammar.Attainable` collects these limits, and every node of a tree that has been read meets them
(`Grammar.attainable_tree`), whatever it has been imported through.
-/

namespace Vitae

open Text Reader Outline

namespace Grammar

/-- A statement within the limits of its text. -/
def WellFormed : Statement → Prop
  | .heading title => trim title = title ∧ '\n' ∉ title
  | .label id content => ':' ∉ id ∧ '\n' ∉ content
  | .block id body _ => ':' ∉ id ∧ (Prose.read body).closed = false
  | .inclusion _ | .close | .idle => True

theorem wellFormed_statementOf (keyword t : Text) : WellFormed (statementOf keyword t).1 := by
  unfold statementOf
  split_ifs
  · exact ⟨trim_trim _, fun h => not_mem_before '\n' t (mem_of_mem_trim h)⟩
  · exact ⟨not_mem_before ':' t, not_mem_before '\n' _⟩
  · exact ⟨not_mem_before ':' t, Prose.closed_read_body _⟩
  · trivial
  · trivial
  · trivial

theorem wellFormed_of_statement? {t rest : Text} {st : Statement}
    (h : statement? t = some (st, rest)) : WellFormed st := by
  obtain ⟨⟨keyword, r⟩, -, hst⟩ := Option.map_eq_some_iff.1 h
  have hwell := wellFormed_statementOf keyword r
  rwa [hst] at hwell

variable (env : Settings)

/-- A node that a document can have. -/
inductive Attainable : Node → Prop
  | label (id content : Text) (idColon : ':' ∉ id) (line : '\n' ∉ content) :
    Attainable (labelNode env id content)
  | block (id body : Text) (idColon : ':' ∉ id) (prose : (Prose.read body).closed = false) :
    Attainable (blockNode env id body)
  | heading (title : Text) (children : List Node) (trimmed : trim title = title)
    (line : '\n' ∉ title) (inner : ∀ n ∈ children, Attainable n) :
    Attainable (sectionNode title children)

variable {env} (opened : List Text) (nested : Text → Text → List Node × Option Halt)

theorem attainable_included
    (hn : ∀ path source, ∀ m ∈ (nested path source).1, Attainable env m) (directive : Text) :
    ∀ m ∈ (included env opened nested directive).1, Attainable env m := by
  intro m hm
  unfold included at hm
  split at hm
  · cases hm
  · rename_i path source hresolve
    split at hm
    · cases hm
    · rename_i ns hnested
      exact hn path source m (by rwa [hnested])

theorem attainable_prepend {t u : Text} {ns : List Node} {s : Scope u}
    (hns : ∀ m ∈ ns, Attainable env m) (hs : ∀ m ∈ s.nodes, Attainable env m)
    (h : u.length < t.length) : ∀ m ∈ (s.prepend ns h : Scope t).nodes, Attainable env m :=
  fun m hm => (List.mem_append.1 hm).elim (hns m) (hs m)

/-- The nodes of a scope are attainable if those of the imported documents are. -/
theorem attainable_scope
    (hn : ∀ path source, ∀ m ∈ (nested path source).1, Attainable env m) (n : Nat) :
    ∀ (t : Text), t.length < n → ∀ inSection : Bool,
      ∀ m ∈ (scope env opened nested inSection t).nodes, Attainable env m := by
  induction n with
  | zero => exact fun t ht => absurd ht (Nat.not_lt_zero _)
  | succ n ih =>
    intro t ht inSection
    rw [scope]
    split
    · exact List.forall_mem_nil _
    · rename_i st rest hst
      have hlt := length_of_statement? hst
      have hwell := wellFormed_of_statement? hst
      have hrest := ih rest (by omega) inSection
      cases st with
      | heading title =>
        have hinner := ih rest (by omega) true
        have hle := (scope env opened nested true rest).rest_le
        have hnode : ∀ m ∈ [sectionNode title (scope env opened nested true rest).nodes],
            Attainable env m := by
          intro m hm
          rw [List.mem_singleton.1 hm]
          exact .heading title _ hwell.1 hwell.2 hinner
        simp only
        split
        · exact hnode
        · exact attainable_prepend hnode
            (ih (scope env opened nested true rest).rest (by omega) inSection) (by omega)
      | label id content =>
        refine attainable_prepend (fun m hm => ?_) hrest hlt
        rw [List.mem_singleton.1 hm]
        exact .label id content hwell.1 hwell.2
      | block id body closed =>
        refine attainable_prepend (fun m hm => ?_) hrest hlt
        rw [List.mem_singleton.1 hm]
        exact .block id body hwell.1 hwell.2
      | inclusion directive =>
        have hincluded := attainable_included opened nested hn directive
        simp only
        split
        · rename_i ns h heq
          rwa [heq] at hincluded
        · rename_i ns heq
          rw [heq] at hincluded
          exact attainable_prepend hincluded hrest hlt
      | close =>
        simp only
        split_ifs
        · exact List.forall_mem_nil _
        · exact attainable_prepend (List.forall_mem_nil _) hrest hlt
      | idle => exact attainable_prepend (List.forall_mem_nil _) hrest hlt

theorem attainable_document (levels : Nat) : ∀ (opened : List Text) (source : Text),
    ∀ m ∈ (document env levels opened source).1, Attainable env m := by
  induction levels with
  | zero =>
    intro _ _ _ hm
    cases hm
  | succ levels ih =>
    intro opened source
    rw [document]
    exact attainable_scope opened _ (fun path source => ih (path :: opened) source)
      (source.length + 1) source (Nat.lt_succ_self _) false

/-- **Every node of a tree that has been read is attainable.** -/
theorem attainable_tree (env : Settings) (opened : List Text) (source : Text) :
    ∀ m ∈ (env.read opened source).tree, Attainable env m := by
  rw [tree_read]
  exact attainable_document _ opened source

end Grammar

end Vitae
