import Mathlib
import Vitae.Instant.Reading
import Vitae.Proofs.Outline.Rendering
import Vitae.Proofs.Writer.Forest

/-!
# Reading what has been written

A tree that has been read is written as a document, and this document is read again. The two trees
are the same up to the rendering of prose exactly if no prose starts with a line that closes a block
(`Writer.read_document_iff`). The literals, the titles and the nesting are always as they were; only
such a line goes wrong, because prose is read from behind a colon but written below it.

* `Writer.faithful` is the likeness of rows that are the same up to rendering.
* `Writer.Spelled.missed` finds the first prose that starts with a closing line: it is read back
  empty, so the rows differ there, whatever is made of the rest.
* `Writer.Spelled.read_safe` and `Writer.Spelled.read_unsafe` are the two halves for a document.
-/

namespace Vitae

open Text Reader Outline Grammar

/-- Prose whose first line closes a block. -/
def Value.StartsClosed : Value → Prop
  | .block _ written _ => trim (before '\n' written) = TextBlock.terminator
  | _ => False

namespace Writer

/-- The likeness of rows that are the same up to rendering. Nothing is asked for on the way. -/
def faithful : Likeness where
  rel rows y := y.rows.map Row.withoutRendering = rows.map Row.withoutRendering ∧
    ∀ e ∈ y.events, ∃ body, e.call = .render body
  empty := ⟨rfl, List.forall_mem_nil _⟩
  append := by
    rintro a b y z ⟨hy, hyevents⟩ ⟨hz, hzevents⟩
    refine ⟨?_, ?_⟩
    · rw [Yield.rows_append, List.map_append, List.map_append, hy, hz]
    · rw [Yield.events_append]
      exact List.forall_mem_append.2 ⟨hyevents, hzevents⟩
  row := by
    intro r y hy hevents
    rw [hy, hevents]
    exact ⟨rfl, List.forall_mem_nil _⟩

variable {again : Settings} {opened : List Text} {nested : Text → Text → Reading}

theorem kept_faithful {written : Text}
    (h : trim (before '\n' written) ≠ TextBlock.terminator) (d : Nat) :
    Kept again opened nested faithful d written := by
  intro htrim hprose titles id idText rendered hlength hid hcolon
  have hopen : (Prose.read ('\n' :: written)).closed = false := by
    rwa [Prose.read_cons fun hc => h hc.2]
  obtain ⟨y, rendered', hleads, hrows, hevents⟩ := leads_block titles d hid hcolon htrim hopen
  refine ⟨y, hleads, ?_, hevents⟩
  rw [hrows, hlength]
  rfl

theorem allKept_faithful {rows : Outline} (h : ∀ r ∈ rows, ¬r.value.StartsClosed) :
    AllKept again opened nested faithful rows := by
  intro r hr id written rendered hvalue
  have hsafe := h r hr
  rw [hvalue] at hsafe
  exact kept_faithful hsafe r.depth

/-- The rows are not what a reading starts with, up to rendering. -/
def Missed (rows : Outline) (r : Reading) : Prop :=
  ¬rows.map Row.withoutRendering <+: r.yield.rows.map Row.withoutRendering

theorem Missed.append {a : Outline} {r : Reading} (h : Missed a r) (b : Outline) :
    Missed (a ++ b) r := by
  unfold Missed at *
  rw [List.map_append]
  exact fun hprefix => h ((List.prefix_append _ _).trans hprefix)

theorem Missed.after {a b : Outline} {y : Yield} {r : Reading} (h : Missed b r)
    (hy : y.rows.map Row.withoutRendering = a.map Row.withoutRendering) :
    Missed (a ++ b) (r.after y) := by
  unfold Missed at *
  rw [Reading.yield_after, Yield.rows_append, List.map_append, List.map_append, hy]
  exact fun hprefix => h ((List.prefix_append_right_inj _).1 hprefix)

/-- Where some prose starts with a closing line, the rows are not read back, whatever follows. -/
theorem Spelled.missed {d : Nat} {ns : List Node} {t : Text} (h : Spelled again d ns t)
    (hclosed : ∃ r ∈ rowsOfAll d ns, r.value.StartsClosed) (titles : List Text)
    (hlength : titles.length = d) (v : Text) :
    Missed (rowsOfAll d ns) (course again opened nested ⟨.seeking [], titles⟩ (t ++ v)) := by
  induction h generalizing titles v with
  | nil =>
    obtain ⟨r, hr, -⟩ := hclosed
    cases hr
  | label idSpells contentSpells colon line rest ih =>
    rw [rowsOfAll, rowsOf_leaf] at hclosed ⊢
    obtain ⟨y, hy, hrows, -⟩ := leads_label titles _ idSpells contentSpells colon line
    have hrest := ih (by simpa [Value.StartsClosed] using hclosed) titles hlength v
    rw [List.append_assoc, hy]
    exact hrest.after (by rw [hrows, hlength])
  | @block d id idText written rendered t ns idSpells colon trimmed prose rest ih =>
    rw [rowsOfAll, rowsOf_leaf] at hclosed ⊢
    by_cases hhere : trim (before '\n' written) = TextBlock.terminator
    -- here it is: the block is read back empty, and its own row already differs
    -- from the one written
    · obtain ⟨y, rendered', hy, hrows⟩ := course_blockText opened nested titles d
        idSpells colon hhere
      rw [List.append_assoc, hy]
      unfold Missed
      rw [Reading.yield_after, Yield.rows_append, hrows]
      intro hprefix
      have hhead := (List.cons_prefix_cons.1 hprefix).1
      simp only [Row.withoutRendering, Value.withoutRendering, Row.mk.injEq,
        Value.block.injEq] at hhead
      obtain ⟨-, -, -, rfl, -⟩ := hhead
      exact absurd hhere (by decide)
    · obtain ⟨y, hy, hrows, -⟩ := kept_faithful hhere d trimmed prose titles id idText rendered
        hlength idSpells colon
      have hrest := ih (by simpa [Value.StartsClosed, hhere] using hclosed) titles hlength v
      rw [List.append_assoc, hy]
      exact hrest.after hrows
  | @heading d title t u children ns trimmed line inner rest ihinner ih =>
    have hlength' : (titles ++ [title]).length = d + 1 := by
      rw [List.length_append, hlength, List.length_singleton]
    have hheading : Leads again opened nested titles (headingText d title) (titles ++ [title]) _ :=
      leads_heading titles d trimmed line
    have hclose : Leads again opened nested (titles ++ [title]) (closingText d) titles _ :=
      leads_close_concat titles d title
    rw [rowsOfAll, sectionNode, rowsOf] at hclosed ⊢
    rw [List.append_assoc, hheading, List.append_assoc, List.append_assoc, List.cons_append,
      ← List.singleton_append]
    refine Missed.after ?_ (by rw [← hlength]; rfl)
    -- the first such prose is below the heading, or everything below it is read back:
    by_cases hbelow : ∃ r ∈ rowsOfAll (d + 1) children, r.value.StartsClosed
    · exact (ihinner hbelow _ hlength' _).append _
    · have hsafe : ∀ r ∈ rowsOfAll (d + 1) children, ¬r.value.StartsClosed :=
        fun r hr hc => hbelow ⟨r, hr, hc⟩
      have hclosed' : ∃ r ∈ rowsOfAll d ns, r.value.StartsClosed := by
        obtain ⟨r, hr, hc⟩ := hclosed
        rcases List.mem_append.1 hr with hr | hr
        · rcases List.mem_cons.1 hr with rfl | hr
          · exact hc.elim
          · exact absurd hc (hsafe r hr)
        · exact ⟨r, hr, hc⟩
      obtain ⟨y, hy, hrows, -⟩ := inner.leads (allKept_faithful hsafe) _ hlength'
      rw [hy, hclose, Reading.after_empty]
      exact (ih hclosed' titles hlength v).after hrows

/-! ### Documents -/

theorem Spelled.read_safe {ns : List Node} {t b : Text} (h : Spelled again 0 ns t)
    (hb : AllBlank b) (hsafe : ∀ r ∈ rowsOfAll 0 ns, ¬r.value.StartsClosed) :
    (again.read opened (t ++ b)).halt = none ∧
      (∀ e ∈ (again.read opened (t ++ b)).yield.events, ∀ path, e.call ≠ .fetch path) ∧
        Node.withoutRenderingAll (again.read opened (t ++ b)).tree =
          Node.withoutRenderingAll ns := by
  obtain ⟨y, hleads, hsame, hevents⟩ := h.leads (allKept_faithful hsafe) [] rfl
  obtain ⟨hyield, hhalt⟩ := read_of_leads hleads hb
  refine ⟨hhalt, ?_, ?_⟩
  · intro e he path hfetch
    obtain ⟨body, hrender⟩ := hevents e (hyield ▸ he)
    exact Call.noConfusion (hrender.symm.trans hfetch)
  · rw [withoutRenderingAll_eq_iff, ← rows_read, hyield, hsame]

theorem Spelled.read_unsafe {ns : List Node} {t : Text} (h : Spelled again 0 ns t) (b : Text)
    (hclosed : ∃ r ∈ rowsOfAll 0 ns, r.value.StartsClosed) :
    Node.withoutRenderingAll (again.read opened (t ++ b)).tree ≠ Node.withoutRenderingAll ns := by
  intro hsame
  have hmissed : Missed (rowsOfAll 0 ns)
      (course again opened (importing again opened) .initial (t ++ b)) :=
    h.missed hclosed [] rfl b
  rw [withoutRenderingAll_eq_iff, rows_read_course] at hsame
  exact hmissed (hsame ▸ List.prefix_rfl)

/-- **What has been read is written so that it is read back, exactly if no prose starts with a line
that closes a block.** The document can be written if its dates are known. Whoever reads it again
with the same stages and the same dates, whatever else differs, does not halt, imports nothing and
gets the same tree up to rendering, exactly if no prose starts with a closing line; and then what is
written of the second tree is the same document. -/
theorem read_document_iff (env : Settings) (opened : List Text) (source : Text)
    (hstages : env.stages = Stage.standard)
    (hknown : ∀ n ∈ Node.walkAll (env.read opened source).tree,
      ∀ i ∈ n.value.instants, env.Knows i) :
    ∃ text, document (env.read opened source).tree = .ok text ∧
      ∀ (again : Settings) (opened' : List Text), again.stages = Stage.standard →
        again.readInstant = env.readInstant →
          let first := env.read opened source
          let second := again.read opened' text
          let safe := ∀ n ∈ Node.walkAll first.tree, ¬n.value.StartsClosed
          ((second.halt = none ∧ (∀ e ∈ second.yield.events, ∀ path, e.call ≠ .fetch path) ∧
              Node.withoutRenderingAll second.tree = Node.withoutRenderingAll first.tree) ↔ safe) ∧
            (safe → document second.tree = .ok text) := by
  obtain ⟨t, b, hb, hdocument, hspells⟩ := exists_document opened source hstages hknown
  refine ⟨t ++ b, hdocument, ?_⟩
  intro again opened' hstages' hread first second safe
  have hspelled := hspells again hstages' hread
  have hsafe_iff : safe ↔ ∀ r ∈ rowsOfAll 0 first.tree, ¬r.value.StartsClosed :=
    (forall_value_rowsOfAll (p := fun value => ¬value.StartsClosed) 0).symm
  have hback (hsafe : safe) : second.halt = none ∧ _ ∧ _ :=
    hspelled.read_safe hb (hsafe_iff.1 hsafe)
  refine ⟨⟨?_, hback⟩, ?_⟩
  · rintro ⟨-, -, hsame⟩
    rw [hsafe_iff]
    intro r hr hclosed
    exact hspelled.read_unsafe b ⟨r, hr, hclosed⟩ hsame
  · intro hsafe
    rw [← document_withoutRendering (attainable_tree again opened' _), (hback hsafe).2.2,
      document_withoutRendering (attainable_tree env opened _), hdocument]

/-- The second day of 2020. -/
def someDay : Instant := ⟨⟨2020, 1, 2, by decide, by decide, by decide⟩, Clock.midnight, none⟩

theorem leads_dated (env : Settings) (opened : List Text) (nested : Text → Text → Reading) :
    ∃ y, Leads env opened nested [] "label born: date 2020-01-02\n".toList [] y ∧
      y.rows = rowsOfAll 0 [labelNode env " born".toList " date 2020-01-02".toList] := by
  have hstatement (v : Text) : statement? ("label born: date 2020-01-02\n".toList ++ v) =
      some (.label " born".toList " date 2020-01-02".toList, v) := rfl
  exact ⟨_, leads_of_statement hstatement rfl, rfl⟩

theorem tree_dated (env : Settings) :
    (env.read [] "label born: date 2020-01-02\n".toList).tree =
      [labelNode env " born".toList " date 2020-01-02".toList] := by
  obtain ⟨y, hleads, hrows⟩ := leads_dated env [] (importing env [])
  have hyield := (read_of_leads hleads allBlank_nil).1
  rw [List.append_nil] at hyield
  rw [Reading.tree, hyield, hrows, forest_rowsOfAll]

/-- A document with a date is written and read back. -/
theorem read_document_dated :
    let env := Settings.standard (Instant.read? 2026) id
    let first := env.read [] "label born: date 2020-01-02\n".toList
    (env.stages = Stage.standard ∧
      ∀ n ∈ Node.walkAll first.tree, ∀ i ∈ n.value.instants, env.Knows i) ∧
        ∃ text, document first.tree = .ok text ∧ (env.read [] text).halt = none ∧
          Node.withoutRenderingAll (env.read [] text).tree =
            Node.withoutRenderingAll first.tree := by
  intro env first
  have htree := tree_dated env
  have hdate : Reader.literal env " date 2020-01-02".toList = .node (.ofInstant someDay) := by cbv
  have hid : Reader.literal env " born".toList = .text "born".toList := by cbv
  have hknown : ∀ n ∈ Node.walkAll first.tree, ∀ i ∈ n.value.instants, env.Knows i := by
    rw [htree, labelNode, hid, hdate]
    intro n hn i hi
    obtain rfl := List.mem_singleton.1 hn
    obtain rfl := List.mem_singleton.1 hi
    refine ⟨?_, by cbv⟩
    rintro _ ⟨⟩
  refine ⟨⟨rfl, hknown⟩, ?_⟩
  obtain ⟨text, hdocument, hagain⟩ := read_document_iff env [] _ rfl hknown
  have hsafe : ∀ n ∈ Node.walkAll first.tree, ¬n.value.StartsClosed := by
    rw [htree]
    intro n hn
    obtain rfl := List.mem_singleton.1 hn
    exact id
  obtain ⟨hhalt, -, hsame⟩ := (hagain env [] rfl rfl).1.2 hsafe
  exact ⟨text, hdocument, hhalt, hsame⟩

end Writer

end Vitae
