import Vitae.Proofs.Import.Segments
import Vitae.Proofs.Literal.Quotes
import Vitae.Proofs.Reader.Import

/-!
# Directives and their targets

A directive should be a path in double quotes, with blanks around (`Import.Quotes`). Where it is,
its target is that path below the root folder (`Import.Quotes.target`), and the spelling of the path
does not matter: dot segments in front of it and a missing suffix lead to the same target
(`Import.Spells.target`).

Where it is not, there should be no target. But the opening quote alone decides: a directive that
begins with a quote and does not end with one, or is a single quote, has a target too, with the
quote in it (`Import.onlyQuoted_iff`).
-/

namespace Vitae

open Text

namespace Path

/-- A path with some dot segments in front. -/
def behindDots (k : Nat) (path : Text) : Text :=
  (List.replicate k "./".toList).flatten ++ path

variable {path : Text}

theorem behindDots_succ (k : Nat) (path : Text) :
    behindDots (k + 1) path = '.' :: '/' :: behindDots k path := rfl

theorem suffix_dot_slash_iff : suffix <:+ '.' :: '/' :: path ↔ suffix <:+ path := by
  have hslash : '/' ∉ suffix := by decide
  have hne (t : Text) (ht : '/' ∈ t) : suffix ≠ t := fun h => hslash (h ▸ ht)
  rw [List.suffix_cons_iff, List.suffix_cons_iff, or_iff_right (hne _ (by simp)),
    or_iff_right (hne _ (by simp))]

theorem normalize_dot_slash (path : Text) :
    normalize ('.' :: '/' :: path) = '.' :: '/' :: normalize path := by
  by_cases h : suffix <:+ path
  · rw [normalize_of_suffix h, normalize_of_suffix (suffix_dot_slash_iff.2 h)]
  · rw [normalize_of_not_suffix h, normalize_of_not_suffix (suffix_dot_slash_iff.not.2 h)]
    rfl

theorem join_dot_slash (root path : Text) :
    join [root, '.' :: '/' :: path] = join [root, path] := by
  have hsegments : segments ('.' :: '/' :: path) = ['.'] :: segments path :=
    segments_append_slash ['.'] path
  refine segments_inj ?_
  rw [segments_join_pair, segments_join_pair, hsegments,
    undotted_append_dot (segments_ne_nil root) (segments_ne_nil path)]

/-- Dot segments in front of a path do not matter below a folder. -/
theorem join_normalize_behindDots (root path : Text) (k : Nat) :
    join [root, normalize (behindDots k path)] = join [root, normalize path] := by
  induction k with
  | zero => rfl
  | succ k ih => rw [behindDots_succ, normalize_dot_slash, join_dot_slash, ih]

theorem normalize_append_suffix (h : ¬suffix <:+ path) :
    normalize (path ++ suffix) = normalize path := by
  rw [normalize_of_not_suffix h, normalize_of_suffix (List.suffix_append path suffix)]

end Path

namespace Import

variable {root directive path : Text}

/-- The directive is the path in double quotes, up to blanks around. -/
def Quotes (directive path : Text) : Prop :=
  trim directive = Writer.inQuotes path

/-! ### Directives in quotes -/

theorem quotes_of_blanks {a b : Text} (ha : AllBlank a) (hb : AllBlank b) (path : Text) :
    Quotes (a ++ (Writer.inQuotes path ++ b)) path := by
  rw [Quotes, trim_append ha hb]
  exact trim_between (k := ['"']) (v := ['"']) rfl (by simp) rfl (by simp) path

theorem exists_quotes_iff : (∃ path, Quotes directive path) ↔ 2 ≤ (trim directive).length ∧
    (trim directive).head? = some '"' ∧ (trim directive).getLast? = some '"' := by
  unfold Quotes
  constructor
  · rintro ⟨path, h⟩
    rw [h]
    refine ⟨?_, rfl, List.getLast?_concat⟩
    simp [Writer.inQuotes]
  · rintro ⟨hlength, hhead, hlast⟩
    cases htrim : trim directive with
    | nil => simp [htrim] at hlength
    | cons c t =>
      rw [htrim] at hlength hhead hlast
      obtain rfl : c = '"' := by simpa using hhead
      have hne : t ≠ [] := by
        rintro rfl
        simp at hlength
      obtain ⟨path, d, rfl⟩ := (List.eq_nil_or_concat t).resolve_left hne
      rw [List.concat_eq_append, ← List.cons_append, List.getLast?_concat] at hlast
      obtain rfl : d = '"' := Option.some.inj hlast
      exact ⟨path, by simp [Writer.inQuotes]⟩

theorem unwrap_trim (t : Text) : Literal.unwrap (trim t) = Literal.unwrap t := by
  simp only [Literal.unwrap, trim_trim]

theorem Quotes.unwrap (h : Quotes directive path) : Literal.unwrap directive = path := by
  rw [← unwrap_trim, h, Literal.unwrap_inQuotes]

/-- A directive without quotes around is only trimmed. -/
theorem unwrap_of_not_quotes (h : ∀ path, ¬Quotes directive path) :
    Literal.unwrap directive = trim directive := by
  have hnone := exists_quotes_iff.not.1 (not_exists.2 h)
  simp only [Literal.unwrap, if_neg hnone]

/-- The opening quote decides whether there is a target. -/
theorem target_of_quote (root : Text) (h : (trim directive).head? = some '"') :
    target (.ok root) directive =
      .ok (Path.join [root, Path.normalize (Literal.unwrap directive)]) :=
  if_pos h

theorem target_of_no_quote (root : Root) (h : (trim directive).head? ≠ some '"') :
    target root directive = .error (.refused (.malformed (trim directive))) :=
  if_neg h

theorem Quotes.head? (h : Quotes directive path) : (trim directive).head? = some '"' := by
  rw [h]
  rfl

theorem Quotes.target (h : Quotes directive path) (root : Text) :
    Import.target (.ok root) directive = .ok (Path.join [root, Path.normalize path]) := by
  rw [target_of_quote root h.head?, h.unwrap]

/-! ### Spellings of a path -/

/-- The ways to spell a path in a directive: in double quotes with blanks around, behind any number
of dot segments, and with the suffix if it has none. -/
inductive Spells (path : Text) : Text → Prop
  | plain {a b : Text} (ha : AllBlank a) (hb : AllBlank b) (k : Nat) :
    Spells path (a ++ (Writer.inQuotes (Path.behindDots k path) ++ b))
  | suffixed {a b : Text} (ha : AllBlank a) (hb : AllBlank b) (k : Nat)
    (h : ¬Path.suffix <:+ path) :
    Spells path (a ++ (Writer.inQuotes (Path.behindDots k (path ++ Path.suffix)) ++ b))

/-- **However a path is spelled, its target is the same.** -/
theorem Spells.target (h : Spells path directive) (root : Text) :
    Import.target (.ok root) directive = .ok (Path.join [root, Path.normalize path]) := by
  cases h with
  | plain ha hb k =>
    rw [(quotes_of_blanks ha hb _).target root, Path.join_normalize_behindDots]
  | suffixed ha hb k h =>
    rw [(quotes_of_blanks ha hb _).target root, Path.join_normalize_behindDots,
      Path.normalize_append_suffix h]

/-! ### The rule for directives -/

/-- What the rule for directives says of one: a path in double quotes has the path below the root
folder as its target, and anything else is refused. -/
def OnlyQuoted (root directive : Text) : Prop :=
  (∀ path, Quotes directive path →
      target (.ok root) directive = .ok (Path.join [root, Path.normalize path])) ∧
    ((∀ path, ¬Quotes directive path) →
      target (.ok root) directive = .error (.refused (.malformed (trim directive))))

theorem count_quote_target (root path : Text) :
    (Path.join [root, Path.normalize path]).count '"' = root.count '"' + path.count '"' := by
  rw [Path.count_join (by decide) (by decide), Path.count_normalize (by decide)]

/-- **The rule for directives holds unless a quote is opened and not closed at the end.**

1. The rule holds of a directive exactly if it does not begin with a quote or is in double quotes.
2. Where it fails, the directive has a target all the same: trimmed and taken for a path, with its
   opening quote.
3. Quotes around a path do not get into its target. -/
theorem onlyQuoted_iff (root directive : Text) :
    (OnlyQuoted root directive ↔
        ((trim directive).head? = some '"' → ∃ path, Quotes directive path)) ∧
      (¬OnlyQuoted root directive → ∃ path, target (.ok root) directive = .ok path ∧
        path = Path.join [root, Path.normalize (trim directive)] ∧
        path.count '"' = root.count '"' + (trim directive).count '"' ∧
        0 < (trim directive).count '"') ∧
      ∀ path, Quotes directive path → ∃ path', target (.ok root) directive = .ok path' ∧
        path'.count '"' = root.count '"' + path.count '"' := by
  have hopen (hquote : (trim directive).head? = some '"') (hnone : ∀ path, ¬Quotes directive path) :
      target (.ok root) directive = .ok (Path.join [root, Path.normalize (trim directive)]) := by
    rw [target_of_quote root hquote, unwrap_of_not_quotes hnone]
  have hrule : OnlyQuoted root directive ↔
      ((trim directive).head? = some '"' → ∃ path, Quotes directive path) := by
    constructor
    · intro hrule hquote
      by_contra hnone
      have hnone := not_exists.1 hnone
      cases (hrule.2 hnone).symm.trans (hopen hquote hnone)
    · intro h
      refine ⟨fun path hpath => hpath.target root, fun hnone => ?_⟩
      refine target_of_no_quote _ fun hquote => ?_
      obtain ⟨path, hpath⟩ := h hquote
      exact hnone path hpath
  refine ⟨hrule, fun hfails => ?_, fun path hpath => ?_⟩
  · obtain ⟨hquote, hnone⟩ := Classical.not_imp.1 (hrule.not.1 hfails)
    refine ⟨_, hopen hquote (not_exists.1 hnone), rfl, count_quote_target root _, ?_⟩
    exact List.count_pos_iff.2 (List.mem_of_mem_head? hquote)
  · exact ⟨_, hpath.target root, count_quote_target root path⟩

/-- A quote that is not closed: the rule says that the directive is refused, but it has a target,
and without a library the import is taken as an empty document. -/
theorem unclosed_quote_targeted :
    ¬OnlyQuoted ".".toList "\"a".toList ∧
      resolve (.ok ".".toList) .standIn [] "\"a".toList = .ok ("./\"a.resume".toList, []) := by
  have htarget : target (.ok ".".toList) "\"a".toList = .ok "./\"a.resume".toList := by decide
  have hnone : ∀ path, ¬Quotes "\"a".toList path :=
    not_exists.1 (exists_quotes_iff.not.2 (by decide))
  refine ⟨fun hrule => ?_, ?_⟩
  · cases (hrule.2 hnone).symm.trans htarget
  · rw [resolve_of_notMem htarget List.not_mem_nil]
    rfl

end Import

end Vitae
