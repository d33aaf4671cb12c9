import Vitae.Proofs.Json.Grammar

/-!
# What is written is read back

However a payload is written, the text is made of the same tokens (`Json.Written.scans`). From these
its data is read (`Json.readable`), so the decoder gives back the data of the payload
(`Json.decode?_of_written`), and this is the data that a lawful serializer makes of it
(`Serializer.Lawful.decode?_write`).

The tokens of a stretch of characters do not depend on what follows (`Json.Scans`), and what some
tokens are read as depends only on what is asked for where they start (`Json.Reads`). So both
passes are followed through a value piece by piece.
-/

namespace Vitae

open Text

namespace Json

/-! ### The tokens of data -/

/-- Some entries between brackets, with commas between them. -/
def enclosed (start stop : Token) (entries : List (List Token)) : List Token :=
  start :: (List.intercalate [.comma] entries ++ [stop])

mutual

/-- The tokens of a value. -/
def tokens : Json → List Token
  | .null => [.null]
  | .text t => [.text t]
  | .list items => enclosed .listStart .listEnd (itemTokens items)
  | .record fields => enclosed .recordStart .recordEnd (fieldTokens fields)

/-- The tokens of the items of a list. -/
def itemTokens : List Json → List (List Token)
  | [] => []
  | j :: js => j.tokens :: itemTokens js

/-- The tokens of the fields of a record. -/
def fieldTokens : List (Text × Json) → List (List Token)
  | [] => []
  | (name, j) :: fields => (.text name :: .colon :: j.tokens) :: fieldTokens fields

end

/-! ### From characters to tokens -/

/-- Between tokens, the characters complete these tokens, whatever follows. -/
def Scans (t : Text) (ts : List Token) : Prop :=
  ∀ u, tokensFrom? .between (t ++ u) = (tokensFrom? .between u).map (ts ++ ·)

theorem Scans.nil : Scans [] [] := by
  intro u
  simp

theorem Scans.append {t u : Text} {ts us : List Token} (ht : Scans t ts) (hu : Scans u us) :
    Scans (t ++ u) (ts ++ us) := by
  intro v
  rw [List.append_assoc, ht, hu, Option.map_map]
  simp only [Function.comp_def, List.append_assoc]

theorem tokensFrom?_cons {s s' : Scan} {c : Char} {ts : List Token} (h : s.step? c = some (ts, s'))
    (t : Text) : tokensFrom? s (c :: t) = (tokensFrom? s' t).map (ts ++ ·) := by
  rw [tokensFrom?, h, Option.map_eq_bind]
  rfl

/-- A character that completes no token only moves on. -/
theorem tokensFrom?_move {s s' : Scan} {c : Char} (h : s.step? c = some ([], s')) (t : Text) :
    tokensFrom? s (c :: t) = tokensFrom? s' t := by
  rw [tokensFrom?_cons h]
  simp

theorem scans_gap {t : Text} (h : Gap t) : Scans t [] := by
  induction t with
  | nil => exact .nil
  | cons c t ih =>
    intro u
    obtain ⟨hc, ht⟩ := List.forall_mem_cons.1 h
    have hstep : Scan.between.step? c = some ([], .between) := if_pos hc
    rw [List.cons_append, tokensFrom?_move hstep]
    exact ih ht u

theorem scans_mark {c : Char} {mark : Token}
    (h : Scan.between.step? c = some ([mark], .between)) : Scans [c] [mark] :=
  fun u => tokensFrom?_cons h u

theorem scans_null : Scans "null".toList [.null] := by
  intro u
  have hn : Scan.between.step? 'n' = some ([], .word ['n']) := rfl
  have hu : (Scan.word ['n']).step? 'u' = some ([], .word ['n', 'u']) := by decide
  have hl : (Scan.word ['n', 'u']).step? 'l' = some ([], .word ['n', 'u', 'l']) := by decide
  have hlast : (Scan.word ['n', 'u', 'l']).step? 'l' = some ([.null], .between) := by decide
  change tokensFrom? .between ('n' :: 'u' :: 'l' :: 'l' :: u) = _
  rw [tokensFrom?_move hn, tokensFrom?_move hu, tokensFrom?_move hl, tokensFrom?_cons hlast]

/-! ### Quoted texts -/

theorem not_isLeading (c : Char) : ¬IsLeading c.toNat := by
  have hvalid : c.toNat.isValidChar := c.valid
  unfold IsLeading
  unfold Nat.isValidChar at hvalid
  omega

/-- The numbers of the characters of a text are read as the text: no character is half of a
pair. -/
theorem ofUnits?_toNat (t : Text) : ofUnits? (t.map Char.toNat) = some t := by
  have hvalid (c : Char) : c.toNat.isValidChar := c.valid
  induction t with
  | nil => rfl
  | cons c t ih =>
    cases t with
    | nil =>
      simp only [List.map_cons, List.map_nil, ofUnits?, hvalid, ↓reduceIte, Char.ofNat_toNat]
    | cons d t =>
      rw [List.map_cons] at ih
      simp only [List.map_cons, ofUnits?, not_isLeading, false_and, ↓reduceIte, hvalid, ih,
        Char.ofNat_toNat]
      rfl

/-- A character is read back from what stands for it inside a quoted text. -/
theorem CharForm.tokensFrom? {c : Char} {w : Text} (h : CharForm c w) (units : List Nat)
    (u : Text) : tokensFrom? (.quoted units) (w ++ u) =
      tokensFrom? (.quoted (units ++ [c.toNat])) u := by
  have hback : (Scan.quoted units).step? '\\' = some ([], .escape units) := rfl
  cases h with
  | plain quote backslash control =>
    exact tokensFrom?_move (by simp only [Scan.step?, quote, backslash, control, ↓reduceIte]) u
  | @short e escaped =>
    have hletter : e ≠ 'u' := by
      rintro rfl
      cases escaped
    have hstep : (Scan.escape units).step? e = some ([], .quoted (units ++ [c.toNat])) := by
      simp only [Scan.step?, if_neg hletter, escaped, Option.map_some]
    rw [List.cons_append, List.singleton_append, tokensFrom?_move hback, tokensFrom?_move hstep]
  | @code d₁ d₂ d₃ d₄ n₁ n₂ n₃ n₄ digit₁ digit₂ digit₃ digit₄ value =>
    have hcode : (Scan.escape units).step? 'u' = some ([], .code units []) := rfl
    have h₁ : Scan.step? (.code units []) d₁ = some ([], .code units [n₁]) := by
      simp [Scan.step?, digit₁]
    have h₂ : Scan.step? (.code units [n₁]) d₂ = some ([], .code units [n₁, n₂]) := by
      simp [Scan.step?, digit₂]
    have h₃ : Scan.step? (.code units [n₁, n₂]) d₃ = some ([], .code units [n₁, n₂, n₃]) := by
      simp [Scan.step?, digit₃]
    have h₄ : Scan.step? (.code units [n₁, n₂, n₃]) d₄ =
        some ([], .quoted (units ++ [c.toNat])) := by
      simp only [Scan.step?, digit₄, Option.bind_eq_bind, Option.bind_some]
      simp only [List.cons_append, List.nil_append, value]
      rfl
    simp only [List.cons_append, List.nil_append]
    rw [tokensFrom?_move hback, tokensFrom?_move hcode, tokensFrom?_move h₁, tokensFrom?_move h₂,
      tokensFrom?_move h₃, tokensFrom?_move h₄]

theorem Quoted.scans {t w : Text} (h : Quoted t w) : Scans w [.text t] := by
  obtain ⟨hchars⟩ := h
  rename_i forms
  intro u
  -- what has been read of the text so far does not matter:
  have hinside (units : List Nat) (v : Text) :
      tokensFrom? (.quoted units) (forms.flatten ++ v) =
        tokensFrom? (.quoted (units ++ t.map Char.toNat)) v := by
    induction hchars generalizing units with
    | nil => simp
    | cons hchar _ ih =>
      rw [List.flatten_cons, List.append_assoc, hchar.tokensFrom?, ih]
      simp
  have hstart : Scan.between.step? '"' = some ([], .quoted []) := rfl
  have hstop : (Scan.quoted ([] ++ t.map Char.toNat)).step? '"' = some ([.text t], .between) := by
    simp [Scan.step?, ofUnits?_toNat]
  rw [List.cons_append, List.append_assoc, tokensFrom?_move hstart, hinside, List.singleton_append,
    tokensFrom?_cons hstop]

/-! ### Payloads -/

theorem Padded.scans {entry w : Text} {ts : List Token} (h : Padded entry w)
    (hentry : Scans entry ts) : Scans w ts := by
  obtain ⟨hbefore, hafter⟩ := h
  simpa using (scans_gap hbefore).append (hentry.append (scans_gap hafter))

theorem scans_padded {entries padded : List Text} {tss : List (List Token)}
    (h : List.Forall₂ Padded entries padded) (hentries : List.Forall₂ Scans entries tss) :
    List.Forall₂ Scans padded tss := by
  induction h generalizing tss with
  | nil =>
    cases hentries
    exact .nil
  | cons hfirst _ ih =>
    cases hentries with
    | cons hentry hrest => exact .cons (hfirst.scans hentry) (ih hrest)

/-- Entries with commas between them. -/
theorem scans_joinWith {entries : List Text} {tss : List (List Token)}
    (h : List.Forall₂ Scans entries tss) :
    Scans (joinWith [','] entries) (List.intercalate [.comma] tss) := by
  have hcomma : Scans [','] [.comma] := scans_mark rfl
  unfold joinWith
  induction h with
  | nil => exact .nil
  | @cons entry ts entries tss hentry hentries ih =>
    cases hentries with
    | nil => simpa using hentry
    | cons =>
      simp only [List.intercalate_cons_cons] at ih ⊢
      exact (hentry.append hcomma).append ih

theorem Bracketed.scans {left right : Char} {start stop : Token} (hleft : Scans [left] [start])
    (hright : Scans [right] [stop]) {entries : List Text} {w : Text}
    (h : Bracketed left right entries w) {tss : List (List Token)}
    (hentries : List.Forall₂ Scans entries tss) : Scans w (enclosed start stop tss) := by
  obtain ⟨hpadded, hgap⟩ := h
  have hjoined := scans_joinWith (scans_padded hpadded hentries)
  simpa [enclosed] using hleft.append (hjoined.append ((scans_gap hgap).append hright))

mutual

/-- The tokens of a text that stands for a payload are those of its data. -/
theorem Written.scans : ∀ {p : Payload} {w : Text}, Written p w → Scans w p.toJson.tokens
  | _, _, .absent => scans_null
  | _, _, .text quoted => quoted.scans
  | _, _, .instant quoted => quoted.scans
  | _, _, .list written brackets => brackets.scans (scans_mark rfl) (scans_mark rfl) written.scans
  | _, _, .record written brackets => brackets.scans (scans_mark rfl) (scans_mark rfl) written.scans

theorem WrittenItems.scans : ∀ {ps : List Payload} {ws : List Text}, WrittenItems ps ws →
    List.Forall₂ Scans ws (itemTokens (Payload.toJsonAll ps))
  | _, _, .nil => .nil
  | _, _, .cons first rest => .cons first.scans rest.scans

theorem WrittenFields.scans : ∀ {fields : List (Text × Payload)} {ws : List Text},
    WrittenFields fields ws → List.Forall₂ Scans ws (fieldTokens (Payload.toJsonFields fields))
  | _, _, .nil => .nil
  | _, _, .cons quoted gapBefore gapAfter value rest => by
    have hcolon : Scans [':'] [.colon] := scans_mark rfl
    have hvalue := (scans_gap gapAfter).append value.scans
    have hfield := quoted.scans.append ((scans_gap gapBefore).append (hcolon.append hvalue))
    exact .cons hfield rest.scans

end

/-! ### From tokens to values -/

/-- The tokens lead from one place to another. -/
def Reads (s : Awaited × List Frame) (ts : List Token) (s' : Awaited × List Frame) : Prop :=
  ts.foldlM next? s = some s'

theorem Reads.nil {s : Awaited × List Frame} : Reads s [] s :=
  rfl

theorem Reads.append {s s' s'' : Awaited × List Frame} {ts us : List Token} (h : Reads s ts s')
    (h' : Reads s' us s'') : Reads s (ts ++ us) s'' := by
  unfold Reads at *
  rw [List.foldlM_append, h]
  exact h'

theorem Reads.cons {s s' s'' : Awaited × List Frame} {token : Token} {ts : List Token}
    (h : next? s token = some s') (h' : Reads s' ts s'') : Reads s (token :: ts) s'' := by
  unfold Reads at *
  rw [List.foldlM_cons, h]
  exact h'

theorem exists_intercalate_cons (separator ts : List Token) (tss : List (List Token)) :
    ∃ us, List.intercalate separator (ts :: tss) = ts ++ us := by
  cases tss with
  | nil => exact ⟨[], by simp⟩
  | cons us tss => exact ⟨_, by rw [List.intercalate_cons_cons, List.append_assoc]⟩

/-- A value starts with a token, and never with the end of a list. So it can be the first item. -/
theorem reads_firstItem {j : Json} {ts : List Token} {stack : List Frame}
    {s : Awaited × List Frame} (h : Reads (.value, .item [] :: stack) (j.tokens ++ ts) s) :
    Reads (.firstItem, stack) (j.tokens ++ ts) s := by
  cases j <;> exact h

/-- The value of a field with its name and the colon before it. -/
theorem Reads.field {before : List (Text × Json)} {name : Text} {stack : List Frame}
    {ts : List Token} {s : Awaited × List Frame}
    (h : Reads (.value, .field before name :: stack) ts s) :
    Reads (.name before, stack) (.text name :: .colon :: ts) s := by
  have hname : next? (.name before, stack) (.text name) = some (.colon before name, stack) := rfl
  exact .cons hname (.cons rfl h)

/-- The value is read from its tokens, wherever a value is asked for. -/
def Readable (j : Json) : Prop :=
  ∀ stack, Reads (.value, stack) j.tokens (.behind j, stack)

theorem reads_items {j : Json} {js : List Json} (h : ∀ k ∈ j :: js, Readable k)
    (before : List Json) (stack : List Frame) :
    Reads (.value, .item before :: stack)
      (List.intercalate [.comma] (itemTokens (j :: js)) ++ [.listEnd])
      (.behind (.list (before ++ j :: js)), stack) := by
  have hitem := h j List.mem_cons_self (.item before :: stack)
  induction js generalizing j before with
  | nil =>
    have hend : next? (.behind j, .item before :: stack) .listEnd =
        some (.behind (.list (before ++ [j])), stack) := rfl
    simpa [itemTokens] using hitem.append (.cons hend .nil)
  | cons k js ih =>
    have hcomma : next? (.behind j, .item before :: stack) .comma =
        some (.value, .item (before ++ [j]) :: stack) := rfl
    have hrest := List.forall_mem_cons.1 (List.forall_mem_cons.1 h).2
    have htail := ih (List.forall_mem_cons.2 hrest) (before ++ [j]) (hrest.1 _)
    simpa [itemTokens] using hitem.append (.cons hcomma htail)

theorem reads_fields {field : Text × Json} {fields : List (Text × Json)}
    (h : ∀ f ∈ field :: fields, Readable f.2) (before : List (Text × Json)) (stack : List Frame) :
    Reads (.name before, stack)
      (List.intercalate [.comma] (fieldTokens (field :: fields)) ++ [.recordEnd])
      (.behind (.record (before ++ field :: fields)), stack) := by
  have hfield := (h field List.mem_cons_self (.field before field.1 :: stack)).field
  induction fields generalizing field before with
  | nil =>
    have hend : next? (.behind field.2, .field before field.1 :: stack) .recordEnd =
        some (.behind (.record (before ++ [field])), stack) := rfl
    simpa [fieldTokens] using hfield.append (.cons hend .nil)
  | cons next fields ih =>
    have hcomma : next? (.behind field.2, .field before field.1 :: stack) .comma =
        some (.name (before ++ [field]), stack) := rfl
    have hrest := List.forall_mem_cons.1 (List.forall_mem_cons.1 h).2
    have htail := ih (List.forall_mem_cons.2 hrest) (before ++ [field]) (hrest.1 _).field
    simpa [fieldTokens] using hfield.append (.cons hcomma htail)

mutual

theorem readable : ∀ j : Json, j.Readable
  | .null, _ => rfl
  | .text _, _ => rfl
  | .list [], _ => rfl
  | .list (j :: js), stack => by
    have h := reads_items (readable_items (j :: js)) [] stack
    refine .cons rfl ?_
    -- the first item is asked for in its own way, and leads to the same place
    obtain ⟨ts, hts⟩ := exists_intercalate_cons [.comma] j.tokens (itemTokens js)
    rw [itemTokens, hts, List.append_assoc] at h ⊢
    exact reads_firstItem h
  | .record [], _ => rfl
  | .record (field :: fields), stack => by
    have h := reads_fields (readable_fields (field :: fields)) [] stack
    refine .cons rfl ?_
    -- so is the first name
    cases fields <;> exact h

theorem readable_items : ∀ items : List Json, ∀ j ∈ items, j.Readable
  | [] => List.forall_mem_nil _
  | j :: js => List.forall_mem_cons.2 ⟨readable j, readable_items js⟩

theorem readable_fields : ∀ fields : List (Text × Json), ∀ f ∈ fields, f.2.Readable
  | [] => List.forall_mem_nil _
  | (_, j) :: fields => List.forall_mem_cons.2 ⟨readable j, readable_fields fields⟩

end

/-- **What is written for a payload is read back as its data.** -/
theorem decode?_of_written {p : Payload} {w : Text} (h : Written p w) :
    decode? w = some p.toJson := by
  have htokens : tokensFrom? .between w = some p.toJson.tokens := by
    simpa [tokensFrom?] using h.scans []
  have hread : p.toJson.tokens.foldlM next? (.value, []) = some (.behind p.toJson, []) :=
    readable p.toJson []
  rw [decode?, htokens, Option.bind_some, ofTokens?, hread]

-- a text with gaps and escapes that a layout does not use
example : decode? "[ \"\\ud83d\\uDE00\\/\", null ,[]]\n".toList =
    some (.list [.text "😀/".toList, .null, .list []]) := by
  cbv

end Json

/-! ### Serializers -/

namespace Serializer.Lawful

variable {S : Serializer}

mutual

/-- A lawful serializer makes the data of a payload, part by part. -/
theorem dump_eq (hS : S.Lawful) : ∀ {p : Payload}, p.WithinDay → S.dump p = p.toJson
  | .absent, _ => hS.dump_absent
  | .text t, _ => hS.dump_text t
  | .instant i, h => hS.dump_instant i (h i (List.mem_singleton_self i))
  | .list items, h => by
    rw [hS.dump_list items h, map_dump_eq hS h, Payload.toJson]
  | .record fields, h => by
    rw [hS.dump_record fields h, map_dump_fields_eq hS h, Payload.toJson]

theorem map_dump_eq (hS : S.Lawful) : ∀ {ps : List Payload},
    (∀ i ∈ Payload.instantsAll ps, i.WithinDay) →
      ps.map S.dump = Payload.toJsonAll ps
  | [], _ => rfl
  | p :: ps, h => by
    rw [Payload.instantsAll, List.forall_mem_append] at h
    rw [List.map_cons, Payload.toJsonAll, dump_eq hS h.1, map_dump_eq hS h.2]

theorem map_dump_fields_eq (hS : S.Lawful) : ∀ {fields : List (Text × Payload)},
    (∀ i ∈ Payload.instantsFields fields, i.WithinDay) →
      (fields.map fun field => (field.1, S.dump field.2)) = Payload.toJsonFields fields
  | [], _ => rfl
  | (name, p) :: fields, h => by
    rw [Payload.instantsFields, List.forall_mem_append] at h
    rw [List.map_cons, Payload.toJsonFields, dump_eq hS h.1, map_dump_fields_eq hS h.2]

end

/-- **The data and the text of a lawful serializer agree.** -/
theorem decode?_write (hS : S.Lawful) (indent : Option Nat) {p : Payload} (h : p.WithinDay) :
    Json.decode? (S.write indent p) = some (S.dump p) := by
  rw [Json.decode?_of_written (hS.write indent p h), hS.dump_eq h]

end Serializer.Lawful

end Vitae
