import Mathlib.Tactic.SplitIfs
import Vitae.Import.Path
import Vitae.Library.Disk
import Vitae.Proofs.Text.Cut

/-!
# Joined paths

Joining paths changes how they are spelled, and nothing else. The names of a joined path are those
of its segments (`Path.names_join`), so on a disk it leads where its segments lead one after the
other; and it has all the characters of its segments but for dots and slashes (`Path.count_join`).
-/

namespace Vitae

open Text

namespace Disk

theorem names_append_slash (a b : Text) : names (a ++ '/' :: b) = names a ++ names b := by
  rw [names, pieces_append_cons (by decide), List.filter_append]
  rfl

theorem names_dot_slash (t : Text) : names ('.' :: '/' :: t) = names t :=
  names_append_slash ['.'] t

/-- A text that can be a name: it is not empty, not a dot segment, and has no slash. -/
structure IsName (name : Text) : Prop where
  ne_nil : name ≠ []
  ne_dot : name ≠ ['.']
  slash : '/' ∉ name

theorem IsName.names_eq {name : Text} (h : IsName name) : names name = [name] := by
  have hpieces : pieces (· == '/') name = [name] :=
    pieces_eq_singleton fun c hc => by simpa using ne_of_mem_of_not_mem hc h.slash
  simp [names, hpieces, h.ne_nil, h.ne_dot]

theorem flatMap_names {segments : List Text} (h : ∀ name ∈ segments, IsName name) :
    segments.flatMap names = segments := by
  induction segments with
  | nil => rfl
  | cons name segments ih =>
    obtain ⟨hname, hsegments⟩ := List.forall_mem_cons.1 h
    rw [List.flatMap_cons, hname.names_eq, ih hsegments]
    rfl

theorem isName_of_mem_names {path name : Text} (h : name ∈ names path) :
    IsName name ∧ ∀ c ∈ name, c ∈ path := by
  obtain ⟨hpiece, hgood⟩ := List.mem_filter.1 h
  have hchars := of_mem_pieces hpiece
  simp only [Bool.and_eq_true, Bool.not_eq_true', List.isEmpty_eq_false_iff, ne_eq,
    decide_eq_true_eq] at hgood
  exact ⟨⟨hgood.1, hgood.2, fun hslash => by simpa using (hchars _ hslash).2⟩,
    fun c hc => (hchars c hc).1⟩

end Disk

namespace Path

open Disk

/-- Shortening the runs of `./` keeps the names. What stands before them does not matter, but within
a run it is nothing. -/
theorem names_append_squeezeDots (inRun : Bool) (t u : Text) (hu : inRun = true → u = []) :
    names (u ++ squeezeDots inRun t) = names (u ++ t) := by
  fun_induction squeezeDots inRun t generalizing u with
  | case1 t ih =>
    obtain rfl := hu rfl
    rw [ih [] fun _ => rfl, List.nil_append, List.nil_append, names_dot_slash]
  | case2 inRun t hrun ih =>
    have hnext := ih [] fun _ => rfl
    have hdot (v : Text) : u ++ '.' :: '/' :: v = (u ++ ['.']) ++ '/' :: v := by simp
    rw [hdot, hdot, names_append_slash, names_append_slash]
    exact congrArg _ hnext
  | case3 inRun c t hc ih =>
    have hnext := ih (u ++ [c]) (by simp)
    simpa using hnext
  | case4 inRun => rfl

theorem names_append_dropDots (afterSlash : Bool) (t u : Text) (hu : afterSlash = true → u = []) :
    names (u ++ dropDots afterSlash t) = names (u ++ t) := by
  fun_induction dropDots afterSlash t generalizing u with
  | case1 => rfl
  | case2 t ih =>
    obtain rfl := hu rfl
    rw [ih [] fun _ => rfl, List.nil_append, List.nil_append, names_dot_slash]
  | case3 afterSlash t hslash ih =>
    have hnext := ih [] fun _ => rfl
    have hdot (v : Text) : u ++ '.' :: '/' :: v = (u ++ ['.']) ++ '/' :: v := by simp
    rw [hdot, hdot, names_append_slash, names_append_slash]
    exact congrArg _ hnext
  | case4 afterSlash c t hc ih =>
    by_cases hslash : c = '/'
    · subst hslash
      have hnext := ih [] fun _ => rfl
      rw [names_append_slash, names_append_slash]
      exact congrArg _ hnext
    · have hnext := ih (u ++ [c]) (by simp [hslash])
      simpa using hnext

theorem names_joinWith (segments : List Text) :
    names (joinWith ['/'] segments) = segments.flatMap names := by
  unfold joinWith
  induction segments with
  | nil => rfl
  | cons s segments ih =>
    cases segments with
    | nil => simp
    | cons s' segments =>
      rw [List.intercalate_cons_cons, List.append_assoc, List.singleton_append,
        names_append_slash, ih]
      rfl

theorem prefix_joinWith (s : Text) (segments : List Text) :
    s <+: joinWith ['/'] (s :: segments) := by
  unfold joinWith
  cases segments with
  | nil => simp
  | cons s' segments =>
    rw [List.intercalate_cons_cons, List.append_assoc]
    exact List.prefix_append s _

theorem mem_joinWith {c : Char} {segments : List Text} (h : c ∈ joinWith ['/'] segments) :
    c = '/' ∨ ∃ s ∈ segments, c ∈ s := by
  unfold joinWith at h
  induction segments with
  | nil => cases h
  | cons s segments ih =>
    cases segments with
    | nil => exact .inr ⟨s, List.mem_cons_self, by simpa using h⟩
    | cons s' segments =>
      rw [List.intercalate_cons_cons, List.append_assoc, List.singleton_append, List.mem_append,
        List.mem_cons] at h
      rcases h with h | h | h
      · exact .inr ⟨s, List.mem_cons_self, h⟩
      · exact .inl h
      · exact (ih h).imp_right fun ⟨t, ht, hc⟩ => ⟨t, List.mem_cons_of_mem s ht, hc⟩

/-- **The names of a joined path are those of its segments.** -/
theorem names_join (segments : List Text) : names (join segments) = segments.flatMap names := by
  have hsqueeze := names_append_squeezeDots false (joinWith ['/'] segments) [] (by simp)
  have hdrop := names_append_dropDots false (squeezeDots false (joinWith ['/'] segments)) []
    (by simp)
  exact hdrop.trans (hsqueeze.trans (names_joinWith segments))

/-! ### Characters -/

section

variable {c : Char} (hdot : c ≠ '.') (hslash : c ≠ '/')
include hdot hslash

theorem count_squeezeDots (inRun : Bool) (t : Text) :
    (squeezeDots inRun t).count c = t.count c := by
  fun_induction squeezeDots inRun t with
  | case1 t ih => simp [ih, hdot.symm, hslash.symm]
  | case2 inRun t hrun ih => simp [ih, List.count_cons]
  | case3 inRun d t hd ih => simp [ih, List.count_cons]
  | case4 inRun => rfl

theorem count_dropDots (afterSlash : Bool) (t : Text) :
    (dropDots afterSlash t).count c = t.count c := by
  fun_induction dropDots afterSlash t with
  | case1 => rfl
  | case2 t ih => simp [ih, hdot.symm, hslash.symm]
  | case3 afterSlash t hafter ih => simp [ih, List.count_cons]
  | case4 afterSlash d t hd ih => simp [ih, List.count_cons]

/-- Joining loses no characters but dots and slashes. -/
theorem count_join (a b : Text) : (join [a, b]).count c = a.count c + b.count c := by
  have hjoined : joinWith ['/'] [a, b] = a ++ '/' :: b := by
    simp [joinWith, List.intercalate_cons_cons]
  rw [join, count_dropDots hdot hslash, count_squeezeDots hdot hslash, hjoined]
  simp [hslash.symm]

end

/-- A joined path begins as the first segment does, or with the slash behind it. -/
theorem head?_join (a b : Text) : (join [a, b]).head? = (a ++ ['/']).head? := by
  have hjoined : joinWith ['/'] [a, b] = a ++ '/' :: b := by
    simp [joinWith, List.intercalate_cons_cons]
  have hsqueeze (t : Text) : (squeezeDots false t).head? = t.head? := by
    unfold squeezeDots
    split <;> simp
  have hdrop (t : Text) : (dropDots false t).head? = t.head? := by
    unfold dropDots
    split <;> simp
  rw [join, hdrop, hsqueeze, hjoined]
  cases a <;> rfl

/-! ### The suffix -/

theorem length_suffix : suffix.length = 7 := rfl

theorem normalize_of_suffix {path : Text} (h : suffix <:+ path) : normalize path = path := by
  obtain ⟨stem, rfl⟩ := h
  have hsuffix : suffix.isSuffixOf (stem ++ suffix) = true :=
    List.isSuffixOf_iff_suffix.2 (List.suffix_append stem suffix)
  simp [normalize, dropTail?, hsuffix]

theorem normalize_of_not_suffix {path : Text} (h : ¬suffix <:+ path) :
    normalize path = path ++ suffix := by
  have hsuffix : ¬suffix.isSuffixOf path = true := fun h' => h (List.isSuffixOf_iff_suffix.1 h')
  simp [normalize, dropTail?, hsuffix]

theorem suffix_normalize (path : Text) : suffix <:+ normalize path :=
  List.suffix_append _ suffix

theorem normalize_eq_self_iff {path : Text} : normalize path = path ↔ suffix <:+ path :=
  ⟨fun h => h ▸ suffix_normalize path, normalize_of_suffix⟩

theorem isName_normalize {name : Text} (h : IsName name) : IsName (normalize name) := by
  by_cases hsuffix : suffix <:+ name
  · rwa [normalize_of_suffix hsuffix]
  · rw [normalize_of_not_suffix hsuffix]
    refine ⟨List.append_ne_nil_of_left_ne_nil h.ne_nil _, fun hdot => ?_, ?_⟩
    · have hlength := congrArg List.length hdot
      rw [List.length_append, length_suffix, List.length_singleton] at hlength
      omega
    · have hslash : '/' ∉ suffix := by decide
      rw [List.mem_append, not_or]
      exact ⟨h.slash, hslash⟩

theorem count_normalize {c : Char} (hc : c ∉ suffix) (path : Text) :
    (normalize path).count c = path.count c := by
  by_cases h : suffix <:+ path
  · rw [normalize_of_suffix h]
  · rw [normalize_of_not_suffix h, List.count_append, List.count_eq_zero.2 hc, Nat.add_zero]

end Path

end Vitae
