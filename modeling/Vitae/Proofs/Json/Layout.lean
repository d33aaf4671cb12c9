import Vitae.Proofs.Json.Reading

/-!
# The serializer of the program

What the serializer of the program writes stands for its payload: the indent only moves the gaps
between the tokens, and of the escapes it uses the short ones and those of the controls
(`Json.written_layout`). So the serializer is lawful (`Serializer.lawful_standard`).
-/

namespace Vitae

open Text

namespace Json

/-! ### Quoted texts -/

theorem hex_control : ∀ n < 0x20,
    hex 4 n = ['0', '0', (n / 16).digitChar, (n % 16).digitChar] := by
  decide

theorem hexValue?_digitChar : ∀ n < 16, hexValue? n.digitChar = some n := by
  decide

theorem charForm_escapedChar (c : Char) : CharForm c (escapedChar c) := by
  unfold escapedChar
  split_ifs with h₁ h₂ h₃ h₄ h₅ h₆ h₇ hcontrol
  · subst h₁; exact .short rfl
  · subst h₂; exact .short rfl
  · subst h₃; exact .short rfl
  · subst h₄; exact .short rfl
  · subst h₅; exact .short rfl
  · subst h₆; exact .short rfl
  · subst h₇; exact .short rfl
  · have hhigh := hexValue?_digitChar (c.toNat / 16) (by omega)
    have hlow := hexValue?_digitChar (c.toNat % 16) (by omega)
    have hvalue : [0, 0, c.toNat / 16, c.toNat % 16].foldl (16 * · + ·) 0 = c.toNat := by
      simp only [List.foldl_cons, List.foldl_nil]
      omega
    rw [hex_control _ hcontrol]
    exact .code rfl rfl hhigh hlow hvalue
  · exact .plain h₁ h₂ hcontrol

theorem quoted_textLayout (t : Text) : Quoted t (textLayout t) := by
  have hchars : List.Forall₂ CharForm t (t.map escapedChar) := by
    rw [List.forall₂_map_right_iff, List.forall₂_same]
    exact fun c _ => charForm_escapedChar c
  rw [textLayout, List.flatMap_def, List.cons_append]
  exact .mk hchars

/-! ### Layouts -/

theorem gap_nil : Gap [] :=
  List.forall_mem_nil _

theorem gap_breakLine (indent : Option Nat) (depth : Nat) : Gap (breakLine indent depth) := by
  intro c hc
  unfold breakLine at hc
  split at hc
  · cases hc
  · rcases List.mem_cons.1 hc with rfl | hc
    · rfl
    · rw [List.eq_of_mem_replicate hc]
      rfl

theorem bracketed_bracketed (indent : Option Nat) (depth : Nat) (left right : Char)
    (entries : List Text) :
    Bracketed left right entries (bracketed indent depth left right entries) := by
  have hpadded : List.Forall₂ Padded entries (entries.map (breakLine indent (depth + 1) ++ ·)) := by
    rw [List.forall₂_map_right_iff, List.forall₂_same]
    intro entry _
    have hentry : Padded entry (breakLine indent (depth + 1) ++ (entry ++ [])) :=
      .mk (gap_breakLine indent (depth + 1)) gap_nil
    rwa [List.append_nil] at hentry
  unfold bracketed
  split_ifs with hempty
  · rw [List.isEmpty_iff.1 hempty]
    exact .mk .nil gap_nil
  · rw [List.cons_append, List.cons_append, List.append_assoc]
    exact .mk hpadded (gap_breakLine indent depth)

theorem exists_colon (indent : Option Nat) : ∃ gap, Gap gap ∧ colon indent = ':' :: gap := by
  unfold colon
  split_ifs
  · exact ⟨[' '], List.forall_mem_singleton.2 rfl, rfl⟩
  · exact ⟨[], gap_nil, rfl⟩

mutual

/-- The layout of the data, at any depth, stands for the payload. -/
theorem written_layoutAt (indent : Option Nat) :
    ∀ (depth : Nat) (p : Payload), Written p (layoutAt indent depth p.toJson)
  | _, .absent => .absent
  | _, .text t => .text (quoted_textLayout t)
  | _, .instant i => .instant (quoted_textLayout i.isoText)
  | depth, .list items =>
    .list (written_layoutItems indent (depth + 1) items) (bracketed_bracketed indent depth _ _ _)
  | depth, .record fields =>
    .record (written_layoutFields indent (depth + 1) fields)
      (bracketed_bracketed indent depth _ _ _)

theorem written_layoutItems (indent : Option Nat) : ∀ (depth : Nat) (ps : List Payload),
    WrittenItems ps (layoutItems indent depth (Payload.toJsonAll ps))
  | _, [] => .nil
  | depth, p :: ps => .cons (written_layoutAt indent depth p) (written_layoutItems indent depth ps)

theorem written_layoutFields (indent : Option Nat) :
    ∀ (depth : Nat) (fields : List (Text × Payload)),
      WrittenFields fields (layoutFields indent depth (Payload.toJsonFields fields))
  | _, [] => .nil
  | depth, (name, p) :: fields => by
    obtain ⟨gap, hgap, hcolon⟩ := exists_colon indent
    have hvalue := written_layoutAt indent depth p
    have hrest := written_layoutFields indent depth fields
    rw [Payload.toJsonFields, layoutFields, hcolon, List.append_assoc, List.cons_append]
    exact .cons (quoted_textLayout name) gap_nil hgap hvalue hrest

end

theorem written_layout (indent : Option Nat) (p : Payload) :
    Written p (layout indent p.toJson) :=
  written_layoutAt indent 0 p

end Json

/-! ### Laws -/

theorem Payload.toJsonAll_eq_map (ps : List Payload) : toJsonAll ps = ps.map toJson := by
  induction ps with
  | nil => rfl
  | cons p ps ih => rw [toJsonAll, ih, List.map_cons]

theorem Payload.toJsonFields_eq_map (fields : List (Text × Payload)) :
    toJsonFields fields = fields.map fun field => (field.1, field.2.toJson) := by
  induction fields with
  | nil => rfl
  | cons field fields ih => rw [toJsonFields, ih, List.map_cons]

/-- **The serializer of the program is lawful.** -/
theorem Serializer.lawful_standard : Serializer.standard.Lawful where
  dump_absent := rfl
  dump_text _ := rfl
  dump_instant _ _ := rfl
  dump_list items _ := congrArg Json.list (Payload.toJsonAll_eq_map items)
  dump_record fields _ := congrArg Json.record (Payload.toJsonFields_eq_map fields)
  write indent p _ := Json.written_layout indent p

end Vitae
