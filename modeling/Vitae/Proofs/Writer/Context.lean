import Vitae.Proofs.Reader.Idle
import Vitae.Proofs.Writer.Forest

/-!
# A document around a block of prose

`Writer.context d written n` is a document with one block of prose, `d` sections deep, and `n` empty
sections behind it. It has the tree `Writer.contextTree` (`Writer.read_context`), and the tree is
written with the prose on lines of its own (`Writer.document_context`). If the prose starts with a
closing line, what is left of it comes before the empty sections when this is read
(`Writer.rows_course_written`), and these tell what it does (`Writer.rows_course_tail`).
-/

namespace Vitae

open Text Reader Outline Grammar

namespace Writer

/-! ### Sections around and behind -/

/-- A forest below `d` sections without titles. -/
def nest : Nat → List Node → List Node
  | 0, ns => ns
  | d + 1, ns => nest d [sectionNode [] ns]

/-- Some sections without titles and contents. -/
def peers (n : Nat) : List Node :=
  List.replicate n (sectionNode [] [])

/-- The headings of `d` sections. -/
def headings : Nat → Text
  | 0 => []
  | d + 1 => headings d ++ headingText d []

/-- The lines that close `d` sections. -/
def closings : Nat → Text
  | 0 => []
  | d + 1 => closingText d ++ closings d

/-- The lines of some empty sections. -/
def peersText (d : Nat) : Nat → Text
  | 0 => []
  | n + 1 => headingText d [] ++ (closingText d ++ peersText d n)

/-- The row of a section without a title. -/
def peerRow (d : Nat) : Row :=
  ⟨d, Node.sectionKind, .text []⟩

/-- The rows of `d` sections within each other. -/
def spine (d : Nat) : Outline :=
  (List.range d).map peerRow

theorem rowsOfAll_nest (d : Nat) (ns : List Node) :
    rowsOfAll 0 (nest d ns) = spine d ++ rowsOfAll d ns := by
  induction d generalizing ns with
  | zero => rfl
  | succ d ih =>
    rw [nest, ih, rowsOfAll_sectionNode, spine, spine, List.range_succ, List.map_append,
      List.append_assoc]
    rfl

theorem rowsOfAll_peers (d n : Nat) : rowsOfAll d (peers n) = List.replicate n (peerRow d) := by
  induction n with
  | zero => rfl
  | succ n ih =>
    rw [peers, List.replicate_succ, rowsOfAll, ← peers, ih, sectionNode, rowsOf_leaf]
    rfl

theorem statements_nest {d : Nat} {ns : List Node} {ls : List Text}
    (h : statements d ns = .ok ls) :
    ∃ ks, statements 0 (nest d ns) = .ok ks ∧
      unlines ks = headings d ++ (unlines ls ++ closings d) := by
  induction d generalizing ns ls with
  | zero => exact ⟨ls, h, by simp only [headings, closings, List.append_nil, List.nil_append]⟩
  | succ d ih =>
    obtain ⟨ks, hks, htext⟩ := statement_heading d [] h
    have hone : statements d [sectionNode [] ns] = .ok (ks ++ []) := by
      rw [statements, hks, statements]
      rfl
    obtain ⟨js, hjs, htext'⟩ := ih hone
    refine ⟨js, hjs, ?_⟩
    rw [htext', List.append_nil, htext, headings, closings]
    simp only [List.append_assoc]

theorem statements_peers (d n : Nat) :
    ∃ ls, statements d (peers n) = .ok ls ∧ unlines ls = peersText d n := by
  induction n with
  | zero => exact ⟨[], rfl, rfl⟩
  | succ n ih =>
    obtain ⟨ls, hls, htext⟩ := ih
    have hnone : statements (d + 1) [] = .ok [] := rfl
    obtain ⟨ks, hks, htext'⟩ := statement_heading d [] hnone
    refine ⟨ks ++ ls, ?_, ?_⟩
    · rw [peers, List.replicate_succ, statements, hks, ← peers, hls]
      rfl
    · rw [unlines_append, htext, htext', peersText, unlines_nil, List.append_nil, List.append_assoc]

variable {env : Settings} {opened : List Text} {nested : Text → Text → Reading}

variable (env opened nested) in
theorem leads_headings (d : Nat) :
    ∃ y, Leads env opened nested [] (headings d) (List.replicate d []) y ∧ y.rows = spine d := by
  induction d with
  | zero => exact ⟨.empty, leads_nil, rfl⟩
  | succ d ih =>
    obtain ⟨y, hy, hrows⟩ := ih
    have hheading : Leads env opened nested (List.replicate d []) (headingText d []) _ _ :=
      leads_heading (List.replicate d []) d rfl (by simp)
    rw [← List.replicate_succ'] at hheading
    refine ⟨_, hy.append hheading, ?_⟩
    rw [Yield.rows_append, hrows, List.length_replicate, spine, spine, List.range_succ,
      List.map_append]
    rfl

variable (env opened nested) in
theorem leads_peers (titles : List Text) (d n : Nat) :
    ∃ y, Leads env opened nested titles (peersText d n) titles y ∧
      y.rows = List.replicate n (peerRow titles.length) := by
  induction n with
  | zero => exact ⟨.empty, leads_nil, rfl⟩
  | succ n ih =>
    obtain ⟨y, hy, hrows⟩ := ih
    have hheading : Leads env opened nested titles (headingText d []) _ _ :=
      leads_heading titles d rfl (by simp)
    have hclose : Leads env opened nested (titles ++ [[]]) (closingText d) titles _ :=
      leads_close_concat titles d []
    refine ⟨_, hheading.append (hclose.append hy), ?_⟩
    rw [Yield.rows_append, Yield.rows_append, hrows, List.replicate_succ]
    rfl

variable (env opened nested) in
theorem leads_closings (d : Nat) : ∀ titles : List Text,
    ∃ titles', Leads env opened nested titles (closings d) titles' .empty := by
  induction d with
  | zero => exact fun titles => ⟨titles, leads_nil⟩
  | succ d ih =>
    intro titles
    obtain ⟨titles', h⟩ := ih titles.dropLast
    exact ⟨titles', (leads_close titles d).append h⟩

/-! ### The document -/

/-- What stands behind the block. -/
def tail (d n : Nat) : Text :=
  peersText d n ++ closings d

/-- A document with some prose in a block below `d` sections, and with `n` empty sections behind the
block. -/
def context (d : Nat) (written : Text) (n : Nat) : Text :=
  headings d ++ (blockHead 0 [] ++ (' ' :: written ++ '\n' :: closingText 0) ++ tail d n)

/-- The tree of this document. -/
def contextTree (d : Nat) (written rendered : Text) (n : Nat) : List Node :=
  nest d (.mk Node.blockKind (.block (.text []) written rendered) [] :: peers n)

/-- The row of the block. -/
def contextRow (d : Nat) (written rendered : Text) : Row :=
  ⟨d, Node.blockKind, .block (.text []) written rendered⟩

theorem rowsOfAll_contextTree (d : Nat) (written rendered : Text) (n : Nat) :
    rowsOfAll 0 (contextTree d written rendered n) =
      spine d ++ (contextRow d written rendered :: List.replicate n (peerRow d)) := by
  rw [contextTree, rowsOfAll_nest, rowsOfAll, rowsOf_leaf, rowsOfAll_peers]
  rfl

theorem literal_blank (hstages : env.stages = Stage.standard) {b : Text} (hb : AllBlank b) :
    Reader.literal env b = .text [] := by
  have hunwrap : Literal.unwrap b = Literal.unwrap [] := by
    have h := Literal.unwrap_blank_append hb []
    rwa [List.append_nil] at h
  rw [literal_congr hstages hunwrap, literal_standard hstages]
  rfl

theorem spells_nil (hstages : env.stages = Stage.standard) : Spells env [] (.text []) :=
  ⟨rfl, fun a ha => by rw [List.append_nil]; exact literal_blank hstages ha⟩

variable (opened) in
/-- The document has its tree. -/
theorem read_context (hstages : env.stages = Stage.standard) {d : Nat} {written : Text}
    (htrim : trim written = written) (hprose : (Prose.read written).closed = false) (n : Nat) :
    (env.read opened (context d written n)).halt = none ∧
      ∃ rendered, (env.read opened (context d written n)).tree =
        contextTree d written rendered n := by
  obtain ⟨y, hy, hyrows⟩ := leads_headings env opened (importing env opened) d
  have hbody : (Prose.read (' ' :: written)).closed = false := by
    rwa [Prose.read_cons fun h => absurd h.1 (by decide)]
  have hcolon : ':' ∉ ([] : Text) := by simp
  obtain ⟨z, hz, hzrows, -⟩ := leads_body env opened (importing env opened)
    (List.replicate d []) 0 hcolon hbody
  obtain ⟨x, hx, hxrows⟩ := leads_peers env opened (importing env opened) (List.replicate d []) d n
  obtain ⟨titles', hclose⟩ := leads_closings env opened (importing env opened) d
    (List.replicate d [])
  have hread := read_of_leads (hy.append (hz.append (hx.append hclose))) allBlank_nil
  rw [List.append_nil] at hread
  refine ⟨hread.2, env.render (trimEnd (' ' :: written)), ?_⟩
  rw [Reading.tree]
  refine Eq.trans (congrArg (fun y => Outline.forest y.rows) hread.1) ?_
  rw [← forest_rowsOfAll (contextTree d written _ n), rowsOfAll_contextTree]
  rw [trim_cons_space, htrim, literal_blank hstages allBlank_space, List.length_replicate] at hzrows
  simp only [Yield.rows_append, hyrows, hzrows, hxrows, List.length_replicate]
  rw [Yield.empty, List.append_nil]
  rfl

/-- The document is written with its prose below the identifier of the block. -/
theorem document_context (d : Nat) (written rendered : Text) (n : Nat) :
    ∃ b, AllBlank b ∧ document (contextTree d written rendered n) =
      .ok (headings d ++ (blockText d [] written ++ tail d n) ++ b) := by
  have hid : Writer.literal (.text []) = .ok [] := rfl
  obtain ⟨ks, hks, hblock⟩ := statement_block d written rendered hid
  obtain ⟨ls, hls, hpeers⟩ := statements_peers d n
  -- the block and the empty sections are peers at depth `d`:
  have hboth : statements d
      (.mk Node.blockKind (.block (.text []) written rendered) [] :: peers n) = .ok (ks ++ ls) := by
    rw [statements, hks, hls]
    rfl
  obtain ⟨js, hjs, htext⟩ := statements_nest hboth
  obtain ⟨b, hb, hdocument⟩ := document_eq hjs
  refine ⟨b, hb, ?_⟩
  rw [contextTree, hdocument, htext, unlines_append, hblock, hpeers, tail, List.append_assoc,
    List.append_assoc]
  simp only [List.append_assoc]

theorem colon_notMem_of_allBlank {b : Text} (hb : AllBlank b) : ':' ∉ b :=
  fun h => absurd (hb _ h) (by decide)

theorem colon_notMem_tail (d n : Nat) : ':' ∉ tail d n := by
  have hindent : ':' ∉ indent d := colon_notMem_of_allBlank (allBlank_indent d)
  have hheading : ':' ∉ headingText d [] := by simp [headingText, hindent]
  have hclosing (e : Nat) : ':' ∉ closingText e := by
    simp [closingText, colon_notMem_of_allBlank (allBlank_indent e)]
  have hpeers : ':' ∉ peersText d n := by
    induction n with
    | zero => simp [peersText]
    | succ n ih => simp [peersText, hheading, hclosing, ih]
  have hclosings (e : Nat) : ':' ∉ closings e := by
    induction e with
    | zero => simp [closings]
    | succ e ih => simp [closings, hclosing, ih]
  simp [tail, hpeers, hclosings]

theorem barren_tail (d n : Nat) {b : Text} (hb : AllBlank b) : Barren (tail d (n + 1) ++ b) := by
  refine ⟨?_, indent d, ?_⟩
  · rw [List.mem_append, not_or]
    exact ⟨colon_notMem_tail d (n + 1), colon_notMem_of_allBlank hb⟩
  · refine ⟨"ection".toList ++ ([' '] ++ ['\n'] ++ (closingText d ++ peersText d n) ++
      closings d ++ b), allBlank_indent d, ?_⟩
    have hword : "section".toList = 's' :: "ection".toList := rfl
    simp only [tail, peersText, headingText, hword, List.append_assoc, List.cons_append,
      List.nil_append]

variable (env opened nested) in
/-- The empty sections are read back at the depth that the reader has reached. -/
theorem rows_course_tail (titles : List Text) (d n : Nat) {b : Text} (hb : AllBlank b) :
    (course env opened nested ⟨.seeking [], titles⟩ (tail d n ++ b)).yield.rows =
      List.replicate n (peerRow titles.length) := by
  obtain ⟨y, hy, hrows⟩ := leads_peers env opened nested titles d n
  obtain ⟨titles', hclose⟩ := leads_closings env opened nested d titles
  have hcourse := ((hy.append hclose).append_blank hb).course_eq
  rw [tail, hcourse, Yield.append_empty, hrows]

variable (opened nested) in
/-- What is read of the written document: the sections, the block without its prose, and then
whatever is left of the prose and what stands behind the block. -/
theorem rows_course_written (hstages : env.stages = Stage.standard) {d : Nat} {written : Text}
    (hend : trim (before '\n' written) = TextBlock.terminator) (n : Nat) (b : Text) :
    ∃ rendered, (course env opened nested .initial
        (headings d ++ (blockText d [] written ++ tail d n) ++ b)).yield.rows =
      spine d ++ (contextRow d [] rendered ::
        (course env opened nested ⟨.seeking [], List.replicate d []⟩
          (leftover d written ++ (tail d n ++ b))).yield.rows) := by
  obtain ⟨y, hy, hyrows⟩ := leads_headings env opened nested d
  have hcolon : ':' ∉ ([] : Text) := by simp
  obtain ⟨z, rendered, hz, hzrows⟩ := course_blockText opened nested (List.replicate d []) d
    (spells_nil hstages) hcolon hend
  refine ⟨rendered, ?_⟩
  rw [List.append_assoc, List.append_assoc, ReaderState.initial, hy, hz, Reading.yield_after,
    Reading.yield_after, Yield.rows_append, Yield.rows_append, hyrows, hzrows,
    List.length_replicate]
  rfl

end Writer

end Vitae
