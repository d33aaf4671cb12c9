import Vitae.Instant.Reading
import Vitae.Proofs.Outline.Rendering
import Vitae.Proofs.Writer.Context

/-!
# The shape of what has been written

Sections and labels are written as they have been read, but prose that starts with a closing line is
cut there when it is read back, and what is left of it is taken for statements. These statements may
close a section, add labels, or swallow what follows. The shape of a tree is safe from a block of
prose exactly if what is left of it is idle (`Writer.KeepsPlace`).

Two blocks that do not keep their place can make up for each other in a single document, so the
condition is one on the prose that documents may hold: `Writer.shape_survives_iff` says for any sort
of prose that all documents with prose of this sort keep their shape exactly if all such prose keeps
its place. `Writer.shape_lost` is a document that does not keep its shape.
-/

namespace Vitae

open Text Reader Outline Grammar

namespace Writer

variable (again : Settings) (opened : List Text) (nested : Text → Text → Reading)

/-- Prose at depth `d` of which nothing but idle statements is left, if it starts with a closing
line. -/
def KeepsPlace (d : Nat) (written : Text) : Prop :=
  trim (before '\n' written) = TextBlock.terminator →
    Idle again opened nested d (leftover d written)

variable {again opened nested}

/-! ### Prose that keeps its place -/

/-- The likeness of rows with the same shape. -/
def shaped : Likeness where
  rel rows y := y.rows.shape = rows.shape
  empty := rfl
  append := by
    intro a b y z hy hz
    rw [Yield.rows_append, shape_append, shape_append, hy, hz]
  row := by
    intro r y hy _
    rw [hy]

theorem endsLine_closing (d : Nat) (written : Text) :
    EndsLine (written ++ '\n' :: closingText d) := by
  rw [EndsLine, closingText_eq, ← List.cons_append, ← List.append_assoc, List.getLast?_concat]

theorem leftover_suffix (d : Nat) (written : Text) :
    leftover d written <:+ written ++ '\n' :: closingText d :=
  behind_suffix '\n' _

theorem endsLine_leftover (d : Nat) (written : Text) :
    leftover d written = [] ∨ EndsLine (leftover d written) := by
  by_cases h : leftover d written = []
  · exact .inl h
  · exact .inr ((endsLine_closing d written).of_suffix (leftover_suffix d written) h)

/-- The line that closes a block stands behind every colon of its prose. -/
theorem fenced_leftover (d : Nat) (written : Text) : Fenced (leftover d written) := by
  refine Fenced.of_suffix ?_ (leftover_suffix d written)
  intro a b hsplit
  have hcolon : ':' ∉ '\n' :: closingText d := by
    simp [closingText, colon_notMem_of_allBlank (allBlank_indent d)]
  rcases List.append_eq_append_iff.1 hsplit with ⟨c, rfl, hc⟩ | ⟨c, rfl, hc⟩
  · exact absurd (hc ▸ List.mem_append_right _ List.mem_cons_self) hcolon
  · cases c with
    | nil => cases hc
    | cons x c =>
      have hb : b = c ++ '\n' :: closingText d := (List.cons.inj hc).2
      rw [hb]
      exact closed_closingText c d

theorem kept_shaped {d : Nat} {written : Text} (h : KeepsPlace again opened nested d written) :
    Kept again opened nested shaped d written := by
  intro htrim hprose titles id idText rendered hlength hid hcolon
  by_cases hend : trim (before '\n' written) = TextBlock.terminator
  · obtain ⟨y, rendered', hy, hrows⟩ := course_blockText opened nested titles d hid hcolon hend
    obtain ⟨z, hz, hshape⟩ := (h hend).leads (endsLine_leftover d written) hlength
    refine ⟨y ++ z, fun v => by rw [hy, hz, Reading.after_after], ?_⟩
    change (y ++ z).rows.shape = _
    rw [Yield.rows_append, shape_append, hrows, hshape]
    rfl
  · have hopen : (Prose.read ('\n' :: written)).closed = false := by
      rwa [Prose.read_cons fun hc => hend hc.2]
    obtain ⟨y, rendered', hy, hrows, -⟩ := leads_block titles d hid hcolon htrim hopen
    refine ⟨y, hy, ?_⟩
    change y.rows.shape = _
    rw [hrows]
    rfl

/-! ### Prose that does not -/

/-- Prose keeps its place if the documents around it are read back. One empty section behind it
tells whether what is left of it adds to the shape or closes a section, and many tell whether it
swallows what follows. -/
theorem keepsPlace_of_context {d : Nat} {written : Text} (hstages : again.stages = Stage.standard)
    (hback : ∀ n, ∃ b, AllBlank b ∧
      (course again opened nested .initial
        (headings d ++ (blockText d [] written ++ tail d n) ++ b)).yield.rows.shape =
          (spine d).shape ++ List.replicate n (peerRow d)) :
    KeepsPlace again opened nested d written := by
  intro hend
  -- what is left of the prose has to leave the empty sections as they are, however many:
  have hafter (n : Nat) : ∃ b, AllBlank b ∧
      (course again opened nested ⟨.seeking [], List.replicate d []⟩
        (leftover d written ++ (tail d n ++ b))).yield.rows.shape =
          List.replicate n (peerRow d) := by
    obtain ⟨b, hb, hshape⟩ := hback n
    obtain ⟨rendered, hrows⟩ := rows_course_written opened nested hstages hend n b
    rw [hrows, shape_append] at hshape
    exact ⟨b, hb, List.append_cancel_left hshape⟩
  have hfate : Fate again opened nested (List.replicate d []) (leftover d written) :=
    fate_of_fenced _ _ (endsLine_leftover d written) (fenced_leftover d written)
  cases hfate with
  | passes titles' y leads closes idle =>
    obtain ⟨b, hb, hshape⟩ := hafter 1
    rw [leads, Reading.yield_after, Yield.rows_append, shape_append,
      rows_course_tail again opened nested titles' d 1 hb] at hshape
    obtain ⟨hnil, hrow⟩ : y.rows.shape = [] ∧ peerRow titles'.length = peerRow d := by
      rcases List.append_eq_singleton_iff.1 hshape with ⟨hnil, hrow⟩ | ⟨-, hrow⟩
      · exact ⟨hnil, (List.cons.inj hrow).1⟩
      · cases hrow
    have hlength : titles'.length = (List.replicate d ([] : Text)).length := by
      rw [List.length_replicate]
      exact congrArg Row.depth hrow
    have hidle := idle hnil hlength
    rwa [List.length_replicate] at hidle
  | swallows bound few =>
    -- one section more than it lets through:
    obtain ⟨b, hb, hshape⟩ := hafter (bound + 1)
    have hfew := few _ (barren_tail d bound hb)
    rw [hshape, List.length_replicate] at hfew
    omega

theorem shape_contextTree (d : Nat) (written rendered : Text) (n : Nat) :
    (rowsOfAll 0 (contextTree d written rendered n)).shape =
      (spine d).shape ++ List.replicate n (peerRow d) := by
  have hpeers : shape (contextRow d written rendered :: List.replicate n (peerRow d)) =
      List.replicate n (peerRow d) := by
    refine (List.filter_cons_of_neg (by simp [contextRow])).trans ?_
    refine List.filter_eq_self.2 fun r hr => ?_
    rw [List.eq_of_mem_replicate hr]
    rfl
  rw [rowsOfAll_contextTree, shape_append, hpeers]

theorem instants_contextTree (d : Nat) (written rendered : Text) (n : Nat) :
    ∀ r ∈ rowsOfAll 0 (contextTree d written rendered n), r.value.instants = [] := by
  intro r hr
  rw [rowsOfAll_contextTree] at hr
  rcases List.mem_append.1 hr with hr | hr
  · obtain ⟨i, -, rfl⟩ := List.mem_map.1 hr
    rfl
  · rcases List.mem_cons.1 hr with rfl | hr
    · rfl
    · rw [List.eq_of_mem_replicate hr]
      rfl

theorem prose_contextTree {d : Nat} {written rendered : Text} {n : Nat} {r : Row}
    (hr : r ∈ rowsOfAll 0 (contextTree d written rendered n)) {id : Literal} {prose shown : Text}
    (hvalue : r.value = .block id prose shown) : r.depth = d ∧ prose = written := by
  rw [rowsOfAll_contextTree] at hr
  rcases List.mem_append.1 hr with hr | hr
  · obtain ⟨i, -, rfl⟩ := List.mem_map.1 hr
    cases hvalue
  · rcases List.mem_cons.1 hr with rfl | hr
    · cases hvalue
      exact ⟨rfl, rfl⟩
    · rw [List.eq_of_mem_replicate hr] at hvalue
      cases hvalue

/-! ### Documents -/

/-- A forest whose prose keeps its place is read back with its shape. -/
theorem Spelled.shape_read {ns : List Node} {t b : Text} (h : Spelled again 0 ns t)
    (hb : AllBlank b) (hkept : ∀ r ∈ rowsOfAll 0 ns, ∀ id written rendered,
      r.value = .block id written rendered → trim written = written →
        (Prose.read written).closed = false →
          KeepsPlace again opened (importing again opened) r.depth written) :
    (again.read opened (t ++ b)).halt = none ∧
      (rowsOfAll 0 (again.read opened (t ++ b)).tree).shape = (rowsOfAll 0 ns).shape := by
  have hall : AllKept again opened (importing again opened) shaped (rowsOfAll 0 ns) := by
    intro r hr id written rendered hvalue htrim hprose
    exact kept_shaped (hkept r hr id written rendered hvalue htrim hprose) htrim hprose
  obtain ⟨y, hleads, hshape⟩ := h.leads hall [] rfl
  obtain ⟨hyield, hhalt⟩ := read_of_leads hleads hb
  refine ⟨hhalt, ?_⟩
  rw [← rows_read, hyield]
  exact hshape

/-- **Documents keep the shape of their trees exactly as far as their prose keeps its place.** Take
any sort of prose, at the depths where it stands. That every document with prose of this sort only
is written, is read back without a halt, and then has the same sections and labels at the same
depths and in the same order, is the same as that all prose of this sort that can be read keeps its
place. Dates are taken to be known. -/
theorem shape_survives_iff (env again : Settings) (opened' : List Text)
    (hstages : env.stages = Stage.standard) (hstages' : again.stages = Stage.standard)
    (hread : again.readInstant = env.readInstant) (sort : Nat → Text → Prop) :
    (∀ (opened : List Text) (source : Text),
      let first := env.read opened source
      first.halt = none →
      (∀ n ∈ Node.walkAll first.tree, ∀ i ∈ n.value.instants, env.Knows i) →
      (∀ r ∈ rowsOfAll 0 first.tree, ∀ id written rendered,
        r.value = .block id written rendered → sort r.depth written) →
      ∃ text, document first.tree = .ok text ∧ (again.read opened' text).halt = none ∧
        (rowsOfAll 0 (again.read opened' text).tree).shape = (rowsOfAll 0 first.tree).shape) ↔
    ∀ d written, trim written = written → (Prose.read written).closed = false → sort d written →
      KeepsPlace again opened' (importing again opened') d written := by
  constructor
  · intro hall d written htrim hprose hsort
    -- a document around this prose alone tells:
    refine keepsPlace_of_context hstages' fun n => ?_
    obtain ⟨hhalt, rendered, htree⟩ :=
      read_context [] hstages htrim hprose n (d := d)
    have hback := hall [] (context d written n)
    simp only [htree] at hback
    obtain ⟨text, hdocument, -, hshape⟩ := hback hhalt
      ((forall_value_rowsOfAll (p := fun value => ∀ i ∈ value.instants, env.Knows i) 0).1
        fun r hr i hi => by rw [instants_contextTree d written rendered n r hr] at hi; cases hi)
      (fun r hr id prose shown hvalue => by
        obtain ⟨hdepth, rfl⟩ := prose_contextTree hr hvalue
        rwa [hdepth])
    obtain ⟨b, hb, hdocument'⟩ := document_context d written rendered n
    obtain rfl := Except.ok.inj (hdocument.symm.trans hdocument')
    rw [rows_read_course, shape_contextTree] at hshape
    exact ⟨b, hb, hshape⟩
  · intro hkeeps opened source first _ hknown hsort
    obtain ⟨t, b, hb, hdocument, hspells⟩ := exists_document opened source hstages hknown
    have hspelled := hspells again hstages' hread
    exact ⟨_, hdocument, hspelled.shape_read hb fun r hr id written rendered hvalue htrim hprose =>
      hkeeps r.depth written htrim hprose (hsort r hr id written rendered hvalue)⟩

/-- Prose that starts with a closing line, with a block of its own behind it. -/
def harmless : Text := "end\ntext more:\nwords".toList

theorem keepsPlace_harmless (again : Settings) (opened : List Text)
    (nested : Text → Text → Reading) (d : Nat) : KeepsPlace again opened nested d harmless := by
  intro _
  have hcolon : ':' ∉ " more".toList := by decide
  have hprose : (Prose.read "\nwords".toList).closed = false := by decide
  have hread := read_closingText hprose d []
  have hstatement := statement?_block (w := "\nwords".toList ++ '\n' :: closingText d) hcolon
  have hleftover : leftover d harmless =
      "text".toList ++ (" more".toList ++ ':' :: ("\nwords".toList ++ '\n' :: closingText d)) := rfl
  rw [List.append_nil] at hread
  rw [← hleftover, hread] at hstatement
  exact .block hstatement (.blank allBlank_nil)

/-- A section with this prose and another section behind it keeps its shape. -/
theorem shape_survives_harmless :
    let env := Settings.standard (Instant.read? 2026) id
    let first := env.read [] (context 1 harmless 1)
    first.halt = none ∧ ∃ text, document first.tree = .ok text ∧
      (env.read [] text).halt = none ∧
        (rowsOfAll 0 (env.read [] text).tree).shape = (rowsOfAll 0 first.tree).shape := by
  intro env first
  have htrim : trim harmless = harmless := by decide
  have hprose : (Prose.read harmless).closed = false := by decide
  obtain ⟨hhalt, rendered, htree⟩ : first.halt = none ∧
      ∃ rendered, first.tree = contextTree 1 harmless rendered 1 :=
    read_context [] rfl htrim hprose 1
  have hback := (shape_survives_iff env env [] rfl rfl rfl fun _ written => written = harmless).2
    fun d written _ _ hwritten => hwritten ▸ keepsPlace_harmless env [] (importing env []) d
  refine ⟨hhalt, hback [] _ hhalt ?_ ?_⟩
  · rw [htree]
    refine (forall_value_rowsOfAll (p := fun value => ∀ i ∈ value.instants, env.Knows i) 0).1 ?_
    intro r hr i hi
    rw [instants_contextTree 1 harmless rendered 1 r hr] at hi
    cases hi
  · intro r hr id written shown hvalue
    rw [htree] at hr
    exact (prose_contextTree hr hvalue).2

/-! ### A document that loses its shape -/

/-- A section with a block of prose and a label behind it. -/
def endingDocument : Text := "section A\ntext T: end\nend\nlabel L:v\nend\n".toList

/-- The rows of the section, with the label at a depth of its own. -/
def endingRows (depth : Nat) (written rendered : Text) : Outline :=
  [⟨0, Node.sectionKind, .text ['A']⟩,
    ⟨1, Node.blockKind, .block (.text ['T']) written rendered⟩,
    ⟨depth, Node.labelKind, .label (.text ['L']) (.text ['v'])⟩]

theorem spells_plain {env : Settings} {t : Text} (hwritten : Writer.literal (.text t) = .ok t)
    (hstages : env.stages = Stage.standard) (hread : Reader.literal env t = .text t) :
    Spells env t (.text t) :=
  ⟨hwritten, fun _ ha => hread ▸ literal_congr hstages (Literal.unwrap_blank_append ha t)⟩

theorem leads_letters (env : Settings) (hstages : env.stages = Stage.standard)
    (opened : List Text) (nested : Text → Text → Reading) (titles : List Text) (d : Nat) :
    ∃ y, Leads env opened nested titles (labelText d ['L'] ['v']) titles y ∧
      y.rows = [⟨titles.length, Node.labelKind, .label (.text ['L']) (.text ['v'])⟩] := by
  have hid : Spells env ['L'] (.text ['L']) :=
    spells_plain rfl hstages (by rw [literal_standard hstages]; rfl)
  have hcontent : Spells env ['v'] (.text ['v']) :=
    spells_plain rfl hstages (by rw [literal_standard hstages]; rfl)
  obtain ⟨y, hy, hrows, -⟩ := leads_label titles d hid hcontent (by decide) (by decide)
  exact ⟨y, hy, hrows⟩

theorem rows_endingDocument (env : Settings) (hstages : env.stages = Stage.standard) :
    (env.read [] endingDocument).halt = none ∧
      ∃ rendered, rowsOfAll 0 (env.read [] endingDocument).tree =
        endingRows 1 "end".toList rendered := by
  have hheading : Leads env [] (importing env []) [] (headingText 0 ['A']) [['A']] _ :=
    leads_heading [] 0 rfl (by decide)
  have hT : Reader.literal env [' ', 'T'] = .text ['T'] := by rw [literal_standard hstages]; rfl
  have hcolon : ':' ∉ ['T'] := by decide
  have hbody : (Prose.read " end".toList).closed = false := by decide
  obtain ⟨y, hy, hyrows, -⟩ :=
    leads_body env [] (importing env []) [['A']] 0 hcolon hbody
  obtain ⟨z, hz, hzrows⟩ := leads_letters env hstages [] (importing env []) [['A']] 0
  have hclose : Leads env [] (importing env []) [['A']] (closingText 0) [] _ := leads_close _ 0
  obtain ⟨hyield, hhalt⟩ :=
    read_of_leads (hheading.append (hy.append (hz.append hclose))) allBlank_nil
  have htext : headingText 0 ['A'] ++
      (blockHead 0 ['T'] ++ (" end".toList ++ '\n' :: closingText 0) ++
        (labelText 0 ['L'] ['v'] ++ closingText 0)) ++ [] = endingDocument := rfl
  rw [htext] at hyield hhalt
  refine ⟨hhalt, env.render (trimEnd " end".toList), ?_⟩
  rw [← rows_read, hyield]
  rw [hT] at hyrows
  simp only [Yield.rows_append, hyrows, hzrows]
  rfl

/-- What is written of this document. -/
def endingWritten : Text := "section A\n  text T:\nend\n  end\n  label L:v\nend\n".toList

theorem rows_endingWritten (env : Settings) (hstages : env.stages = Stage.standard) :
    ∃ rendered, rowsOfAll 0 (env.read [] endingWritten).tree = endingRows 0 [] rendered := by
  have hheading : Leads env [] (importing env []) [] (headingText 0 ['A']) [['A']] _ :=
    leads_heading [] 0 rfl (by decide)
  have hT : Spells env ['T'] (.text ['T']) :=
    spells_plain rfl hstages (by rw [literal_standard hstages]; rfl)
  have hend : trim (before '\n' "end".toList) = TextBlock.terminator := by decide
  obtain ⟨y, rendered, hy, hyrows⟩ :=
    course_blockText [] (importing env []) [['A']] 1 hT (by decide) hend
  have hclose : Leads env [] (importing env []) [['A']] (closingText 1) [] _ := leads_close _ 1
  obtain ⟨z, hz, hzrows⟩ := leads_letters env hstages [] (importing env []) [] 1
  have hlast : Leads env [] (importing env []) [] (closingText 0) [] _ := leads_close _ 0
  have htext : headingText 0 ['A'] ++ (blockText 1 ['T'] "end".toList ++
      (labelText 1 ['L'] ['v'] ++ (closingText 0 ++ []))) = endingWritten := rfl
  have hleftover : leftover 1 "end".toList = closingText 1 := rfl
  refine ⟨rendered, ?_⟩
  rw [rows_read_course, ← htext, ReaderState.initial, hheading, hy, hleftover, hclose, hz, hlast,
    course_seeking_nil]
  simp only [Reading.yield_after, Yield.rows_append, hyrows, hzrows]
  rfl

/-- A section whose prose is a closing line is written so that it is closed before its label. -/
theorem shape_lost :
    let env := Settings.standard (Instant.read? 2026) id
    let first := env.read [] endingDocument
    first.halt = none ∧ document first.tree = .ok endingWritten ∧
      (rowsOfAll 0 (env.read [] endingWritten).tree).shape ≠ (rowsOfAll 0 first.tree).shape := by
  intro env first
  obtain ⟨hhalt, rendered, hrows⟩ := rows_endingDocument env rfl
  obtain ⟨rendered', hrows'⟩ := rows_endingWritten env rfl
  refine ⟨hhalt, ?_, ?_⟩
  · have htree : first.tree = _ := (forest_rowsOfAll first.tree).symm.trans (congrArg forest hrows)
    rw [htree]
    rfl
  · rw [hrows, hrows']
    intro hsame
    have hdepths := congrArg (List.map Row.depth) hsame
    have hfirst : (endingRows 1 "end".toList rendered).shape.map Row.depth = [0, 1] := rfl
    have hsecond : (endingRows 0 [] rendered').shape.map Row.depth = [0, 0] := rfl
    rw [hfirst, hsecond] at hdepths
    exact absurd hdepths (by decide)

end Writer

end Vitae
