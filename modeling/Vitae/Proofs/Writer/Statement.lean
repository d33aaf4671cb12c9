import Vitae.Proofs.Reader.Attainable
import Vitae.Proofs.Reader.Passage
import Vitae.Proofs.Writer.Lines
import Vitae.Proofs.Writer.Literal

/-!
# Written statements are read back

The lines of a statement lead the reader on (`Reader.Leads`) and give the row that has been written.
Only a block of prose can go wrong: where the first line of the prose is `end`, the block ends there
at once, and the reader goes on in the middle of the prose.
-/

namespace Vitae.Writer

open Text Reader Outline

/-! ### Texts of statements -/

/-- The line of a heading. -/
def headingText (d : Nat) (title : Text) : Text :=
  indent d ++ ("section".toList ++ (' ' :: title ++ ['\n']))

/-- The line that closes a section or a block. -/
def closingText (d : Nat) : Text :=
  indent d ++ ("end".toList ++ ['\n'])

/-- The line of a label. -/
def labelText (d : Nat) (id content : Text) : Text :=
  indent d ++ ("label".toList ++ (' ' :: id ++ ':' :: (content ++ ['\n'])))

/-- The line before prose. -/
def blockHead (d : Nat) (id : Text) : Text :=
  indent d ++ ("text".toList ++ (' ' :: id ++ [':']))

/-- The lines of a block of prose. -/
def blockText (d : Nat) (id written : Text) : Text :=
  blockHead d id ++ ('\n' :: written ++ '\n' :: closingText d)

theorem allBlank_indent (d : Nat) : AllBlank (indent d) :=
  allBlank_replicate_space _

theorem newline_notMem_closing (d : Nat) : '\n' ∉ indent d ++ "end".toList := by
  simp [indent]

theorem trim_closing (d : Nat) : trim (indent d ++ "end".toList) = TextBlock.terminator :=
  trim_blank_append (allBlank_indent d)

theorem closingText_eq (d : Nat) : closingText d = indent d ++ "end".toList ++ ['\n'] := by
  rw [closingText, List.append_assoc]

/-- The closing line of a block ends prose that has no closing line of its own. -/
theorem read_closingText {u : Text} (hu : (Prose.read u).closed = false) (d : Nat) (v : Text) :
    Prose.read (u ++ '\n' :: (closingText d ++ v)) = ⟨u, v, true⟩ := by
  rw [closingText_eq, List.append_assoc]
  exact Prose.read_closing hu (newline_notMem_closing d) (trim_closing d)

/-- Before a closing line every block is closed, if not by this line then by an earlier one. -/
theorem closed_closingText (u : Text) (d : Nat) :
    (Prose.read (u ++ '\n' :: closingText d)).closed = true := by
  rw [closingText_eq]
  exact Prose.closed_append_closing u (newline_notMem_closing d) (trim_closing d)

theorem statement_heading (d : Nat) (title : Text) {ns : List Node} {ls : List Text}
    (h : statements (d + 1) ns = .ok ls) :
    ∃ ks, statement d (Grammar.sectionNode title ns) = .ok ks ∧
      unlines ks = headingText d title ++ unlines ls ++ closingText d := by
  refine ⟨(indent d ++ "section ".toList ++ title) :: ls ++ [indent d ++ "end".toList], ?_, ?_⟩
  · simp only [Grammar.sectionNode, statement, ↓reduceIte, h]
    rfl
  · have hword : "section ".toList = "section".toList ++ [' '] := rfl
    simp only [unlines_append, unlines_cons, unlines_nil, headingText, closingText, hword,
      List.append_assoc, List.cons_append, List.nil_append]

theorem statement_label (d : Nat) {id content : Literal} {idText contentText : Text}
    (hid : Writer.literal id = .ok idText) (hcontent : Writer.literal content = .ok contentText) :
    ∃ ks, statement d (.mk Node.labelKind (.label id content) []) = .ok ks ∧
      unlines ks = labelText d idText contentText := by
  refine ⟨[indent d ++ "label ".toList ++ idText ++ ':' :: contentText], ?_, ?_⟩
  · have hkind : ¬Node.labelKind = Node.sectionKind := by decide
    simp only [statement, if_neg hkind, ↓reduceIte, labelLine, hid, hcontent]
    rfl
  · have hword : "label ".toList = "label".toList ++ [' '] := rfl
    simp only [unlines_cons, unlines_nil, labelText, hword, List.append_assoc, List.cons_append,
      List.nil_append]

theorem statement_block (d : Nat) {id : Literal} {idText : Text} (written rendered : Text)
    (hid : Writer.literal id = .ok idText) :
    ∃ ks, statement d (.mk Node.blockKind (.block id written rendered) []) = .ok ks ∧
      unlines ks = blockText d idText written := by
  refine ⟨(indent d ++ "text ".toList ++ idText ++ [':']) :: lines written ++
      [indent d ++ TextBlock.terminator], ?_, ?_⟩
  · have hkind : ¬Node.blockKind = Node.sectionKind := by decide
    simp only [statement, if_neg hkind, ↓reduceIte, blockLines, hid]
    rfl
  · have hword : "text ".toList = "text".toList ++ [' '] := rfl
    simp only [unlines_append, unlines_cons, unlines_nil, unlines_lines, blockText, blockHead,
      closingText, TextBlock.terminator, hword, List.append_assoc, List.cons_append,
      List.nil_append]

/-! ### Statements that are read back -/

variable {env : Settings} {opened : List Text} {nested : Text → Text → Reading}
variable (titles : List Text) (d : Nat)

theorem leads_heading {title : Text} (htrim : trim title = title) (hline : '\n' ∉ title) :
    Leads env opened nested titles (headingText d title) (titles ++ [title])
      (.row ⟨titles.length, Node.sectionKind, .text title⟩) := by
  refine Leads.blank_append (allBlank_indent d) ?_
  have hstatement (v : Text) : statement? ("section".toList ++ (' ' :: title ++ ['\n']) ++ v) =
      some (.heading title, v) := by
    have hline' : '\n' ∉ ' ' :: title := by simp [hline]
    have h := statement?_heading (v := v) hline'
    rw [trim_cons_space, htrim] at h
    simpa only [List.append_assoc, List.cons_append, List.nil_append] using h
  exact leads_of_statement hstatement rfl

theorem leads_close : Leads env opened nested titles (closingText d) titles.dropLast .empty := by
  have hleads : Leads env opened nested titles "end".toList titles.dropLast .empty :=
    leads_of_statement statement?_close rfl
  exact (hleads.append_blank allBlank_newline).blank_append (allBlank_indent d)

/-- The section that a heading has opened is closed again. -/
theorem leads_close_concat (title : Text) :
    Leads env opened nested (titles ++ [title]) (closingText d) titles .empty := by
  have h : Leads env opened nested (titles ++ [title]) (closingText d) _ _ :=
    leads_close (titles ++ [title]) d
  rwa [List.dropLast_concat] at h

theorem leads_label {id content : Literal} {idText contentText : Text}
    (hid : Spells env idText id) (hcontent : Spells env contentText content)
    (hcolon : ':' ∉ idText) (hline : '\n' ∉ contentText) :
    ∃ y, Leads env opened nested titles (labelText d idText contentText) titles y ∧
      y.rows = [⟨titles.length, Node.labelKind, .label id content⟩] ∧ y.events = [] := by
  have hstatement (v : Text) :
      statement? ("label".toList ++ (' ' :: idText ++ ':' :: (contentText ++ ['\n'])) ++ v) =
        some (.label (' ' :: idText) contentText, v) := by
    have hcolon' : ':' ∉ ' ' :: idText := by simp [hcolon]
    have h := statement?_label (v := v) hcolon' hline
    simpa only [List.append_assoc, List.cons_append, List.nil_append] using h
  have hleads : Leads env opened nested titles _ _ _ := leads_of_statement hstatement rfl
  refine ⟨_, Leads.blank_append (allBlank_indent d) hleads, ?_, rfl⟩
  have hid' : Reader.literal env (' ' :: idText) = id := hid.read [' '] allBlank_space
  have hcontent' : Reader.literal env contentText = content := hcontent.read [] allBlank_nil
  simp only [perform, addLabel, Yield.rows_append, Yield.noted, Yield.row, List.nil_append, hid',
    hcontent']
  rfl

variable (env opened nested) in
/-- A block is passed over if no line of its body closes it. -/
theorem leads_body {id body : Text} (hcolon : ':' ∉ id) (hbody : (Prose.read body).closed = false) :
    ∃ y, Leads env opened nested titles (blockHead d id ++ (body ++ '\n' :: closingText d)) titles
        y ∧
      y.rows = [⟨titles.length, Node.blockKind, .block (Reader.literal env (' ' :: id)) (trim body)
        (env.render (trimEnd body))⟩] ∧
      ∀ e ∈ y.events, ∃ body, e.call = .render body := by
  have hstatement (v : Text) :
      statement? ("text".toList ++ (' ' :: id ++ [':']) ++ (body ++ '\n' :: closingText d) ++ v) =
        some (.block (' ' :: id) body true, v) := by
    have hcolon' : ':' ∉ ' ' :: id := by simp [hcolon]
    have h := statement?_block (w := body ++ '\n' :: (closingText d ++ v)) hcolon'
    rw [read_closingText hbody] at h
    simpa only [List.append_assoc, List.cons_append, List.nil_append] using h
  have hleads : Leads env opened nested titles _ _ _ := leads_of_statement hstatement rfl
  have htext : blockHead d id ++ (body ++ '\n' :: closingText d) =
      indent d ++ ("text".toList ++ (' ' :: id ++ [':']) ++ (body ++ '\n' :: closingText d)) := by
    simp only [blockHead, List.append_assoc]
  refine ⟨_, htext ▸ Leads.blank_append (allBlank_indent d) hleads, rfl, ?_⟩
  intro e he
  simp only [perform, Yield.events_append, Yield.noted, Yield.called, Yield.row, List.nil_append,
    List.append_nil, List.mem_singleton] at he
  exact ⟨_, by rw [he]⟩

/-- Prose of which no line closes the block is read back as a whole. -/
theorem leads_block {id : Literal} {idText written : Text} (hid : Spells env idText id)
    (hcolon : ':' ∉ idText) (htrim : trim written = written)
    (hprose : (Prose.read ('\n' :: written)).closed = false) :
    ∃ y rendered, Leads env opened nested titles (blockText d idText written) titles y ∧
      y.rows = [⟨titles.length, Node.blockKind, .block id written rendered⟩] ∧
      ∀ e ∈ y.events, ∃ body, e.call = .render body := by
  obtain ⟨y, hleads, hrows, hevents⟩ := leads_body env opened nested titles d hcolon hprose
  have hbody : trim ('\n' :: written) = written :=
    (trim_blank_append allBlank_newline).trans htrim
  have hid' : Reader.literal env (' ' :: idText) = id := hid.read [' '] allBlank_space
  rw [hbody, hid'] at hrows
  exact ⟨y, _, hleads, hrows, hevents⟩

/-- What is left of prose and its closing line behind the first line. -/
def leftover (d : Nat) (written : Text) : Text :=
  behind '\n' (written ++ '\n' :: closingText d)

variable (opened nested) in
/-- A block whose prose starts with a closing line is read back without prose, and the reader goes
on in what is left of it. -/
theorem course_blockText {id : Literal} {idText written : Text} (hid : Spells env idText id)
    (hcolon : ':' ∉ idText) (hend : trim (before '\n' written) = TextBlock.terminator) :
    ∃ y rendered,
      (∀ v, course env opened nested ⟨.seeking [], titles⟩ (blockText d idText written ++ v) =
        (course env opened nested ⟨.seeking [], titles⟩ (leftover d written ++ v)).after y) ∧
      y.rows = [⟨titles.length, Node.blockKind, .block id [] rendered⟩] := by
  have hstatement (v : Text) :
      statement? (blockText d idText written ++ v) =
        some (.block (' ' :: idText) [] true, leftover d written ++ v) := by
    have hcolon' : ':' ∉ ' ' :: idText := by simp [hcolon]
    have hmem : '\n' ∈ written ++ '\n' :: closingText d := by simp
    have hread : Prose.read ('\n' :: (written ++ '\n' :: closingText d ++ v)) =
        ⟨[], leftover d written ++ v, true⟩ := by
      rw [Prose.read_close, behind_append hmem, leftover]
      rwa [before_append hmem, before_append_stop]
    have h := statement?_block (w := '\n' :: (written ++ '\n' :: closingText d ++ v)) hcolon'
    rw [hread] at h
    rw [blockText, blockHead, List.append_assoc, List.append_assoc,
      statement?_blank_append (allBlank_indent d), ← h]
    simp only [List.append_assoc, List.cons_append, List.nil_append]
  have hid' : Reader.literal env (' ' :: idText) = id := hid.read [' '] allBlank_space
  refine ⟨_, env.render [], fun v => course_of_statement env opened nested titles (hstatement v),
    ?_⟩
  simp only [perform, Yield.rows_append, hid']
  rfl

end Vitae.Writer
