import Vitae.Proofs.Instant.Reading
import Vitae.Proofs.Literal.Stage
import Vitae.Reader.Step

/-!
# Literals that are written and read

A raw text that passes the stages of a document becomes a text, a date or a link. Each of them is
written so that the stages give it back (`Writer.exists_spells`). For dates this rests on what the
settings say about instants: `Settings.Knows` holds of an instant whose written form is read as this
instant. A written literal has a colon or a newline only if the raw text has one, so it fits where
the raw text stood.
-/

namespace Vitae

open Text

/-- An instant that can be written, and whose written form is read back. -/
structure Settings.Knows (env : Settings) (i : Instant) : Prop where
  offset : ∀ seconds ∈ i.offset, seconds.natAbs < 86400
  read : env.readInstant i.literalText = some i

/-- The instant of a date. -/
def Literal.instant? : Literal → Option Instant
  | .node (.mk _ (.instant i) _) => some i
  | _ => none

namespace Writer

open Reader Stage

variable {env : Settings}

theorem literal_standard (hstages : env.stages = Stage.standard) (raw : Text) :
    Reader.literal env raw =
      match readDate env.readInstant (Literal.unwrap raw) with
      | .text t => readLink t
      | .node n => .node n := by
  rw [Reader.literal, hstages]
  exact applyAll_standard env.readInstant raw

/-- A text is written as the literal, and is read as it with any blanks in front. -/
structure Spells (env : Settings) (text : Text) (x : Literal) : Prop where
  written : Writer.literal x = .ok text
  read : ∀ a, AllBlank a → Reader.literal env (a ++ text) = x

/-- The characters that end an identifier or a line. -/
def IsStop (c : Char) : Prop :=
  c = ':' ∨ c = '\n'

/-! ### Dates -/

theorem trim_dateKeyword : trim dateKeyword = dateKeyword := by decide

theorem trim_urlKeyword : trim urlKeyword = urlKeyword := by decide

theorem dateLiteral_eq {i : Instant} (h : ∀ seconds ∈ i.offset, seconds.natAbs < 86400) :
    dateLiteral i = .ok (dateKeyword ++ ' ' :: i.literalText) := by
  have hnarrow : ¬(i.offset.any fun s => 86400 ≤ s.natAbs) = true := by
    cases hoffset : i.offset with
    | none => simp
    | some seconds => simpa using h seconds (by simp [hoffset])
  rw [dateLiteral, if_neg hnarrow]

/-- What is written for an instant is a date, if its form is read as the instant. -/
theorem readDate_dateLiteral {readInstant : Text → Option Instant} {i : Instant}
    (hread : readInstant i.literalText = some i) :
    readDate readInstant (dateKeyword ++ ' ' :: i.literalText) = .node (.ofInstant i) := by
  have hspan := Instant.span_literalText i
  have hkeyword := Literal.afterKeyword?_append trim_dateKeyword (by decide)
    (Instant.trim_of_span hspan) hspan.ne_nil
  simp only [readDate, hkeyword, hread]

theorem spells_date (hstages : env.stages = Stage.standard) {i : Instant} (hi : env.Knows i) :
    Spells env (dateKeyword ++ ' ' :: i.literalText) (.node (.ofInstant i)) := by
  have hspan := Instant.span_literalText i
  refine ⟨?_, fun a ha => ?_⟩
  · rw [Node.ofInstant, Writer.literal, if_pos rfl]
    exact dateLiteral_eq hi.offset
  · have hunwrap : Literal.unwrap (a ++ (dateKeyword ++ ' ' :: i.literalText)) =
        dateKeyword ++ ' ' :: i.literalText := by
      rw [Literal.unwrap_blank_append ha]
      exact Literal.unwrap_of_trimmed
        (Literal.trim_keyword_append trim_dateKeyword (by decide) (Instant.trim_of_span hspan)
          hspan.ne_nil)
        (by simp [dateKeyword])
    rw [literal_standard hstages, hunwrap, readDate_dateLiteral hi.read]

theorem notMem_dateLiteral {c : Char} (hc : IsStop c) (i : Instant) :
    c ∉ dateKeyword ++ ' ' :: i.literalText := by
  have hsign : ¬Instant.Sign c := by
    rcases hc with rfl | rfl <;> simp [Instant.Sign, Char.isDigit]
  have hword : c ∉ dateKeyword ++ [' '] := by
    rcases hc with rfl | rfl <;> decide
  intro h
  rw [← List.singleton_append, ← List.append_assoc] at h
  exact (List.mem_append.1 h).elim hword (Instant.notMem_literalText hsign i)

/-! ### Links -/

/-- A link whose name and target are words. -/
structure IsPlain (l : Link) : Prop where
  name : Literal.IsWord l.name
  target : Literal.IsWord l.target

/-- What is written behind the keyword of a link. -/
def linkWords (l : Link) : Text :=
  if l.name = l.target then linkWord l.target else linkWord l.name ++ ' ' :: linkWord l.target

theorem linkLiteral_eq (l : Link) : linkLiteral l = urlKeyword ++ ' ' :: linkWords l := rfl

theorem linkWords_ne_nil (l : Link) : linkWords l ≠ [] := by
  unfold linkWords
  split_ifs
  · exact Literal.linkWord_ne_nil _
  · simp

theorem trim_linkWords {l : Link} (hl : IsPlain l) : trim (linkWords l) = linkWords l := by
  unfold linkWords
  split_ifs
  · exact Literal.trim_linkWord hl.target.trimmed
  · exact Literal.trim_linkWords hl.name.trimmed hl.target.trimmed

theorem readLink_linkLiteral {l : Link} (hl : IsPlain l) :
    readLink (linkLiteral l) = .node (.ofLink l) := by
  have hkeyword := Literal.afterKeyword?_append trim_urlKeyword (by decide) (trim_linkWords hl)
    (linkWords_ne_nil l)
  rw [linkLiteral_eq]
  simp only [readLink, hkeyword]
  obtain ⟨name, target⟩ := l
  unfold linkWords
  split_ifs with hsame
  · simp only at hsame
    simp only [Literal.quotedWords_linkWord hl.target, hsame]
  · simp only [Literal.quotedWords_linkWords hl.name hl.target]

theorem trim_linkLiteral {l : Link} (hl : IsPlain l) : trim (linkLiteral l) = linkLiteral l :=
  Literal.trim_keyword_append trim_urlKeyword (by decide) (trim_linkWords hl) (linkWords_ne_nil l)

theorem unwrap_linkLiteral {l : Link} (hl : IsPlain l) :
    Literal.unwrap (linkLiteral l) = linkLiteral l :=
  Literal.unwrap_of_trimmed (trim_linkLiteral hl) (by simp [linkLiteral_eq, urlKeyword])

/-- A link is not taken for a date. -/
theorem readDate_linkLiteral (readInstant : Text → Option Instant) {l : Link} (hl : IsPlain l) :
    readDate readInstant (linkLiteral l) = .text (linkLiteral l) := by
  have hdate : Literal.afterKeyword? dateKeyword (linkLiteral l) = none := by
    refine Literal.afterKeyword?_of_not_prefix ?_
    rw [trim_linkLiteral hl, linkLiteral_eq]
    simp [dateKeyword, urlKeyword]
  simp only [readDate, hdate]

theorem spells_link (hstages : env.stages = Stage.standard) {l : Link} (hl : IsPlain l) :
    Spells env (linkLiteral l) (.node (.ofLink l)) := by
  refine ⟨rfl, fun a ha => ?_⟩
  rw [literal_standard hstages, Literal.unwrap_blank_append ha, unwrap_linkLiteral hl,
    readDate_linkLiteral env.readInstant hl]
  exact readLink_linkLiteral hl

theorem mem_linkWords {l : Link} {c : Char} (h : c ∈ linkWords l) :
    c = '"' ∨ c = ' ' ∨ c ∈ l.name ∨ c ∈ l.target := by
  unfold linkWords at h
  split_ifs at h
  · exact (Literal.mem_linkWord h).imp_right fun h => .inr (.inr h)
  · rcases List.mem_append.1 h with h | h
    · exact (Literal.mem_linkWord h).imp_right fun h => .inr (.inl h)
    · rcases List.mem_cons.1 h with h | h
      · exact .inr (.inl h)
      · exact (Literal.mem_linkWord h).imp_right fun h => .inr (.inr h)

theorem notMem_linkLiteral {l : Link} {c : Char} (hc : IsStop c) (hname : c ∉ l.name)
    (htarget : c ∉ l.target) : c ∉ linkLiteral l := by
  have hword : c ∉ urlKeyword ++ [' '] := by
    rcases hc with rfl | rfl <;> decide
  have hquote : c ≠ '"' ∧ c ≠ ' ' := by
    rcases hc with rfl | rfl <;> decide
  intro h
  rw [linkLiteral_eq, ← List.singleton_append, ← List.append_assoc] at h
  rcases List.mem_append.1 h with h | h
  · exact hword h
  · rcases mem_linkWords h with h | h | h | h
    · exact hquote.1 h
    · exact hquote.2 h
    · exact hname h
    · exact htarget h

/-! ### All literals -/

/-- What a raw text becomes, and how it is written. -/
inductive LiteralCase (env : Settings) (raw : Text) : Literal → Prop
  | text : LiteralCase env raw (.text (Literal.unwrap raw))
  | date (i : Instant) : LiteralCase env raw (.node (.ofInstant i))
  | link (l : Link) (plain : IsPlain l) (name : ∀ c ∈ l.name, c ∈ raw)
    (target : ∀ c ∈ l.target, c ∈ raw) : LiteralCase env raw (.node (.ofLink l))

theorem readLink_cases {raw t : Text} (ht : t = Literal.unwrap raw) :
    LiteralCase env raw (readLink t) := by
  unfold readLink
  split
  · exact ht ▸ .text
  · rename_i rest hrest
    -- the characters of a word come from the raw text:
    have hraw {w : Text} {c : Char} (hw : w ∈ Literal.quotedWords rest) (hc : c ∈ w) : c ∈ raw :=
      Literal.mem_of_mem_unwrap
        (ht ▸ Literal.mem_of_mem_afterKeyword? hrest ((Literal.quotedWords_plain hw).2 c hc))
    split
    · rename_i target hwords
      have htarget : target ∈ Literal.quotedWords rest := by simp [hwords]
      have hword := (Literal.quotedWords_plain htarget).1
      exact .link ⟨target, target⟩ ⟨hword, hword⟩ (fun c => hraw htarget) fun c => hraw htarget
    · rename_i name target hwords
      have hname : name ∈ Literal.quotedWords rest := by simp [hwords]
      have htarget : target ∈ Literal.quotedWords rest := by simp [hwords]
      exact .link ⟨name, target⟩
        ⟨(Literal.quotedWords_plain hname).1, (Literal.quotedWords_plain htarget).1⟩
        (fun c => hraw hname) fun c => hraw htarget
    · exact ht ▸ .text

theorem literal_cases (hstages : env.stages = Stage.standard) (raw : Text) :
    LiteralCase env raw (Reader.literal env raw) := by
  rw [literal_standard hstages]
  unfold readDate
  cases Literal.afterKeyword? dateKeyword (Literal.unwrap raw) with
  | none => exact readLink_cases rfl
  | some rest =>
    cases hread : env.readInstant rest with
    | none =>
      simp only [hread]
      exact readLink_cases rfl
    | some i =>
      simp only [hread]
      exact .date i

/-- A literal depends on the raw text only up to quotes and blanks around it. -/
theorem literal_congr (hstages : env.stages = Stage.standard) {t u : Text}
    (h : Literal.unwrap t = Literal.unwrap u) : Reader.literal env t = Reader.literal env u := by
  rw [literal_standard hstages, literal_standard hstages, h]

theorem notMem_textLiteral {t : Text} {c : Char} (hc : IsStop c) (h : c ∉ t) :
    c ∉ textLiteral t := by
  have hquote : c ≠ '"' := by
    rcases hc with rfl | rfl <;> decide
  unfold textLiteral
  split_ifs
  · simp [inQuotes, h, hquote]
  · exact h

/-- **What a raw text becomes is written so that it is read back**, with no colon and no newline
that the raw text does not have. -/
theorem exists_spells {env env' : Settings} (hstages : env.stages = Stage.standard)
    (hstages' : env'.stages = Stage.standard) (hread : env'.readInstant = env.readInstant)
    (raw : Text) (hknown : ∀ i ∈ (Reader.literal env raw).instant?, env.Knows i) :
    ∃ text, Spells env' text (Reader.literal env raw) ∧
      ∀ c, IsStop c → c ∉ raw → c ∉ text := by
  have hcase := literal_cases hstages raw
  generalize hx : Reader.literal env raw = x at hcase hknown
  cases hcase with
  | text =>
    refine ⟨textLiteral (Literal.unwrap raw), ⟨rfl, fun a ha => ?_⟩, fun c hc hraw => ?_⟩
    · rw [literal_congr hstages' (u := raw), literal_standard hstages', hread,
        ← literal_standard hstages, hx]
      rw [Literal.unwrap_blank_append ha, Literal.unwrap_textLiteral]
    · exact notMem_textLiteral hc fun h => hraw (Literal.mem_of_mem_unwrap h)
  | date i =>
    have hi := hknown i rfl
    exact ⟨_, spells_date hstages' ⟨hi.offset, hread ▸ hi.read⟩,
      fun c hc _ => notMem_dateLiteral hc i⟩
  | link l plain name target =>
    exact ⟨_, spells_link hstages' plain, fun c hc hraw =>
      notMem_linkLiteral hc (fun h => hraw (name c h)) fun h => hraw (target c h)⟩

/-! ### Literals that are read back -/

/-- **The written form of an instant is read as the instant** by every reader of dates that reads
instants in digits, with the same day, the same time to the microsecond and the same offset. The form
has no colon and no newline. -/
theorem date_literal_read {readInstant : Text → Option Instant}
    (hforms : Instant.ReadsForms readInstant) {i : Instant}
    (h : ∀ seconds ∈ i.offset, 60 ∣ seconds ∧ seconds.natAbs < 86400) :
    dateLiteral i = .ok (dateKeyword ++ ' ' :: i.literalText) ∧
      ':' ∉ i.literalText ∧ '\n' ∉ i.literalText ∧
      readDate readInstant (dateKeyword ++ ' ' :: i.literalText) = .node (.ofInstant i) :=
  ⟨dateLiteral_eq fun s hs => (h s hs).2, Instant.notMem_literalText (by simp [Instant.Sign]) i,
    Instant.notMem_literalText (by simp [Instant.Sign]) i,
    readDate_dateLiteral (hforms (Instant.form_literalText h))⟩

/-- A microsecond into a day of the year 12, half an hour behind universal time. -/
def earlyInstant : Instant :=
  ⟨⟨12, 11, 10, by decide, by decide, by decide⟩,
    { Clock.midnight with micro := 1, micro_lt := by decide }, some (-1800)⟩

theorem date_literal_read_early :
    Instant.ReadsForms (Instant.read? 2026) ∧
      (∀ seconds ∈ earlyInstant.offset, 60 ∣ seconds ∧ seconds.natAbs < 86400) ∧
      earlyInstant.literalText = "0012-11-10 000000.000001-0030".toList ∧
      readDate (Instant.read? 2026) "date 0012-11-10 000000.000001-0030".toList =
        .node (.ofInstant earlyInstant) := by
  have hforms : Instant.ReadsForms (Instant.read? 2026) := Instant.readsForms_read? 2026
  have hoffset : ∀ seconds ∈ earlyInstant.offset, 60 ∣ seconds ∧ seconds.natAbs < 86400 := by
    rintro seconds ⟨⟩
    decide
  obtain ⟨-, -, -, hread⟩ := date_literal_read hforms hoffset
  exact ⟨hforms, hoffset, by cbv, hread⟩

/-- **Literals are read back between any blanks.** A text that is written comes out of its quotes as
it was, and passes all stages unless it is the date or the link that another literal stands for. A
link comes back from its name and its target. What is written has a colon or a newline only if the
text, the name or the target has one. -/
theorem literal_between_blanks (readInstant : Text → Option Instant) {a b : Text}
    (ha : AllBlank a) (hb : AllBlank b) :
    (∀ t, ∃ written, Writer.literal (.text t) = .ok written ∧
      Literal.unwrap (a ++ written ++ b) = t ∧
      (applyAll readInstant standard (.text (a ++ written ++ b)) = .text t ↔
        readDate readInstant t = .text t ∧ readLink t = .text t) ∧
      ∀ c, IsStop c → c ∈ written → c ∈ t) ∧
    ∀ l children, IsPlain l → ∃ written,
      Writer.literal (.node (.mk Node.linkKind (.link l) children)) = .ok written ∧
      applyAll readInstant standard (.text (a ++ written ++ b)) = .node (.ofLink l) ∧
      ∀ c, IsStop c → c ∈ written → c ∈ l.name ∨ c ∈ l.target := by
  have hblanks (written : Text) :
      Literal.unwrap (a ++ written ++ b) = Literal.unwrap written := by
    rw [Literal.unwrap_append_blank hb, Literal.unwrap_blank_append ha]
  refine ⟨fun t => ⟨textLiteral t, rfl, ?_, ?_, fun c hc => ?_⟩, fun l children hl =>
    ⟨linkLiteral l, rfl, ?_, fun c hc => ?_⟩⟩
  · rw [hblanks, Literal.unwrap_textLiteral]
  · rw [applyAll_standard_eq_text_iff, hblanks, Literal.unwrap_textLiteral]
    simp only [true_and]
  · contrapose
    exact notMem_textLiteral hc
  · rw [applyAll_standard, hblanks, unwrap_linkLiteral hl, readDate_linkLiteral readInstant hl]
    exact readLink_linkLiteral hl
  · contrapose
    rw [not_or]
    exact fun h => notMem_linkLiteral hc h.1 h.2

theorem literal_between_blanks_quoted :
    AllBlank [' '] ∧ AllBlank ['\n'] ∧ IsPlain ⟨"My Site".toList, "x.io".toList⟩ ∧
      (∃ written, Writer.literal (.text "url x".toList) = .ok written ∧
        Literal.unwrap ([' '] ++ written ++ ['\n']) = "url x".toList) ∧
      ∃ written, Writer.literal (.node (.ofLink ⟨"My Site".toList, "x.io".toList⟩)) = .ok written ∧
        applyAll (fun _ => none) standard (.text ([' '] ++ written ++ ['\n'])) =
          .node (.ofLink ⟨"My Site".toList, "x.io".toList⟩) := by
  have hplain : IsPlain ⟨"My Site".toList, "x.io".toList⟩ :=
    ⟨⟨by decide, by decide, by decide⟩, ⟨by decide, by decide, by decide⟩⟩
  obtain ⟨htexts, hlinks⟩ :=
    literal_between_blanks (fun _ => none) allBlank_space allBlank_newline
  obtain ⟨written, hwritten, hunwrap, -⟩ := htexts "url x".toList
  obtain ⟨writtenLink, hwrittenLink, hread, -⟩ := hlinks _ [] hplain
  exact ⟨allBlank_space, allBlank_newline, hplain, ⟨written, hwritten, hunwrap⟩,
    writtenLink, hwrittenLink, hread⟩

end Writer

end Vitae
