import Vitae.Proofs.Import.Path

/-!
# Paths by their segments

The segments of a path are its pieces between slashes. Joining drops the segments `.` that stand
between the first one and the last, and keeps all others as they are (`Path.segments_join`): `..`,
names that end in a dot, empty segments, and a dot at either end.

Both scans go segment by segment. `Path.dropDots` drops every dot that it comes to behind a slash
(`Path.segments_dropDots`). `Path.squeezeDots` has dropped only such dots before
(`Path.undotted_squeezeDots`), those that follow a segment with a dot at its end.
-/

namespace Vitae.Path

open Text

/-- The segments of a path: its pieces between slashes. -/
def segments (path : Text) : List Text :=
  pieces (· == '/') path

/-- Segments without the dots before the last one. -/
def dotless (ss : List Text) : List Text :=
  ss.dropLast.filter (· ≠ ['.']) ++ ss.getLast?.toList

/-- Segments without the dots between the first one and the last. -/
def undotted : List Text → List Text
  | [] => []
  | s :: ss => s :: dotless ss

variable {a b p q : Text} {ss ts : List Text}

/-! ### Segments -/

theorem segments_eq_splitOn (path : Text) : segments path = path.splitOn '/' := by
  unfold segments List.splitOn
  induction path with
  | nil => rfl
  | cons c path ih =>
    rw [pieces, ih, List.splitOnP_cons_eq_if_modifyHead]
    obtain ⟨s, ss, hs⟩ := List.exists_cons_of_ne_nil (List.splitOnP_ne_nil (· == '/') path)
    rw [hs]
    rfl

theorem segments_ne_nil (path : Text) : segments path ≠ [] :=
  pieces_ne_nil _ path

theorem segments_append_slash (a b : Text) :
    segments (a ++ '/' :: b) = segments a ++ segments b :=
  pieces_append_cons (by decide) a b

theorem segments_of_notMem (h : '/' ∉ a) : segments a = [a] :=
  pieces_eq_singleton fun _ hc => by simpa using ne_of_mem_of_not_mem hc h

theorem segments_cons (h : '/' ∉ a) (b : Text) : segments (a ++ '/' :: b) = a :: segments b := by
  rw [segments_append_slash, segments_of_notMem h]
  rfl

theorem joinWith_segments (path : Text) : joinWith ['/'] (segments path) = path := by
  rw [segments_eq_splitOn]
  exact List.intercalate_splitOn '/'

theorem segments_inj (h : segments p = segments q) : p = q := by
  rw [← joinWith_segments p, h, joinWith_segments]

/-! ### Segments without dots -/

theorem dotless_concat (ss : List Text) (s : Text) :
    dotless (ss ++ [s]) = ss.filter (· ≠ ['.']) ++ [s] := by
  rw [dotless, List.dropLast_concat, List.getLast?_concat]
  rfl

theorem dotless_append (ss : List Text) (h : ts ≠ []) :
    dotless (ss ++ ts) = ss.filter (· ≠ ['.']) ++ dotless ts := by
  obtain ⟨ts, t, rfl⟩ := (List.eq_nil_or_concat ts).resolve_left h
  simp only [List.concat_eq_append, ← List.append_assoc, dotless_concat, List.filter_append]

theorem dotless_cons (s : Text) (h : ss ≠ []) :
    dotless (s :: ss) = if s = ['.'] then dotless ss else s :: dotless ss := by
  have happend := dotless_append [s] h
  by_cases hs : s = ['.'] <;> simpa [hs] using happend

@[simp] theorem dotless_dotless (ss : List Text) : dotless (dotless ss) = dotless ss := by
  rcases List.eq_nil_or_concat ss with rfl | ⟨ss, s, rfl⟩
  · rfl
  · simp [dotless_concat]

/-- Before the last segment no dot is left. -/
theorem dot_notMem_dropLast_dotless (ss : List Text) : ['.'] ∉ (dotless ss).dropLast := by
  rcases List.eq_nil_or_concat ss with rfl | ⟨ss, s, rfl⟩
  · exact List.not_mem_nil
  · simp [dotless_concat]

theorem undotted_append_dot (h : ss ≠ []) (h' : ts ≠ []) :
    undotted (ss ++ ['.'] :: ts) = undotted (ss ++ ts) := by
  cases ss with
  | nil => exact absurd rfl h
  | cons s ss =>
    rw [List.cons_append, List.cons_append, undotted, undotted, dotless_append ss h',
      dotless_append ss (List.cons_ne_nil _ ts), dotless_cons _ h', if_pos rfl]

theorem undotted_undotted (ss : List Text) : undotted (undotted ss) = undotted ss := by
  cases ss with
  | nil => rfl
  | cons s ss => rw [undotted, undotted, dotless_dotless]

/-! ### The scans -/

theorem dropDots_of_notMem (afterSlash : Bool) (h : '/' ∉ a) : dropDots afterSlash a = a := by
  fun_induction dropDots afterSlash a with
  | case1 => rfl
  | case2 | case3 => simp at h
  | case4 afterSlash c t hc ih => rw [ih fun hmem => h (List.mem_cons_of_mem c hmem)]

theorem squeezeDots_of_notMem (inRun : Bool) (h : '/' ∉ a) : squeezeDots inRun a = a := by
  fun_induction squeezeDots inRun a with
  | case1 | case2 => simp at h
  | case3 inRun c t hc ih => rw [ih fun hmem => h (List.mem_cons_of_mem c hmem)]
  | case4 => rfl

/-- A segment that is no dot starts with a character that is no dot before a slash. -/
theorem head?_append_slash {c : Char} (h : c :: a ≠ ['.']) (ha : '/' ∉ a) (b : Text) :
    ∀ t, c = '.' → a ++ '/' :: b = '/' :: t → False := by
  rintro t rfl ht
  cases a with
  | nil => exact h rfl
  | cons d a =>
    obtain ⟨rfl, -⟩ := List.cons_eq_cons.1 ht
    exact ha List.mem_cons_self

theorem dropDots_segment (afterSlash : Bool) (h : '/' ∉ a) (b : Text) :
    dropDots afterSlash (a ++ '/' :: b) =
      if afterSlash = true ∧ a = ['.'] then dropDots true b else a ++ '/' :: dropDots true b := by
  induction a generalizing afterSlash with
  | nil => simp [dropDots]
  | cons c a ih =>
    obtain ⟨hc, ha⟩ := not_or.1 (List.mem_cons.not.1 h)
    by_cases hdot : c :: a = ['.']
    · obtain ⟨rfl, rfl⟩ := List.cons_eq_cons.1 hdot
      cases afterSlash <;> simp [dropDots]
    · have hslash : (c == '/') = false := by simpa using Ne.symm hc
      rw [List.cons_append, dropDots.eq_3 _ _ _ (head?_append_slash hdot ha b), hslash, ih false ha]
      simp [hdot]

/-- A dot behind a segment with a dot at its end is dropped, and other segments are kept. -/
theorem squeezeDots_segment (inRun : Bool) (h : '/' ∉ a) (b : Text) :
    squeezeDots inRun (a ++ '/' :: b) =
      if inRun = true ∧ a = ['.'] then squeezeDots true b
      else a ++ '/' :: squeezeDots (a.getLast? = some '.') b := by
  induction a generalizing inRun with
  | nil => simp [squeezeDots]
  | cons c a ih =>
    obtain ⟨hc, ha⟩ := not_or.1 (List.mem_cons.not.1 h)
    by_cases hdot : c :: a = ['.']
    · obtain ⟨rfl, rfl⟩ := List.cons_eq_cons.1 hdot
      cases inRun <;> simp [squeezeDots]
    · rw [List.cons_append, squeezeDots.eq_2 _ _ _ (head?_append_slash hdot ha b), ih false ha]
      cases a with
      | nil =>
        have hne : c ≠ '.' := fun hne => hdot (hne ▸ rfl)
        simp [hne]
      | cons d a => simp

theorem segments_dropDots_true (t : Text) :
    segments (dropDots true t) = dotless (segments t) := by
  induction t using stop_induction '/' with
  | last a ha => rw [dropDots_of_notMem true ha, segments_of_notMem ha]; rfl
  | next a b ha ih =>
    rw [dropDots_segment true ha, segments_cons ha, dotless_cons a (segments_ne_nil b), ← ih]
    by_cases hdot : a = ['.']
    · simp [hdot]
    · simp [hdot, segments_cons ha]

theorem segments_dropDots (t : Text) : segments (dropDots false t) = undotted (segments t) := by
  by_cases hmem : '/' ∈ t
  · obtain ⟨a, b, rfl, ha⟩ := List.eq_append_cons_of_mem hmem
    rw [dropDots_segment false ha, if_neg (by simp), segments_cons ha, segments_cons ha,
      segments_dropDots_true, undotted]
  · rw [dropDots_of_notMem false hmem, segments_of_notMem hmem]
    rfl

theorem dotless_squeezeDots (inRun : Bool) (t : Text) :
    dotless (segments (squeezeDots inRun t)) = dotless (segments t) := by
  induction t using stop_induction '/' generalizing inRun with
  | last a ha => rw [squeezeDots_of_notMem inRun ha]
  | next a b ha ih =>
    rw [squeezeDots_segment inRun ha, segments_cons ha, dotless_cons a (segments_ne_nil b)]
    split_ifs with hdrop hdot hdot
    · exact ih true
    · exact absurd hdrop.2 hdot
    · rw [segments_cons ha, dotless_cons a (segments_ne_nil _), if_pos hdot, ih]
    · rw [segments_cons ha, dotless_cons a (segments_ne_nil _), if_neg hdot, ih]

/-- Shortening the runs of `./` drops only such dots as are dropped anyway. -/
theorem undotted_squeezeDots (t : Text) :
    undotted (segments (squeezeDots false t)) = undotted (segments t) := by
  by_cases hmem : '/' ∈ t
  · obtain ⟨a, b, rfl, ha⟩ := List.eq_append_cons_of_mem hmem
    rw [squeezeDots_segment false ha, if_neg (by simp), segments_cons ha, segments_cons ha,
      undotted, undotted, dotless_squeezeDots]
  · rw [squeezeDots_of_notMem false hmem]

/-! ### Joined paths -/

/-- **The segments of a joined path are those of the joined text without the dots between the first
one and the last.** -/
theorem segments_join (ts : List Text) :
    segments (join ts) = undotted (segments (joinWith ['/'] ts)) := by
  rw [join, segments_dropDots, undotted_squeezeDots]

theorem segments_join_pair (a b : Text) :
    segments (join [a, b]) = undotted (segments a ++ segments b) := by
  rw [segments_join, joinWith, List.intercalate_cons_cons, List.intercalate_singleton,
    List.append_assoc, List.singleton_append, segments_append_slash]

theorem join_singleton_join (ts : List Text) : join [join ts] = join ts := by
  refine segments_inj ?_
  rw [segments_join [join ts], joinWith, List.intercalate_singleton, segments_join,
    undotted_undotted]

theorem dot_not_infix_join (ts : List Text) : ¬"/./".toList <:+: join ts := by
  rintro ⟨u, v, huv⟩
  have hinside : ['.'] ∈ (segments (join ts)).tail.dropLast := by
    have hsegments : segments (join ts) = segments u ++ (['.'] :: segments v) := by
      rw [← huv, ← segments_cons (by decide) v, ← segments_append_slash]
      simp
    rw [hsegments, List.tail_append_of_ne_nil (segments_ne_nil u),
      List.dropLast_append_of_ne_nil (List.cons_ne_nil _ _),
      List.dropLast_cons_of_ne_nil (segments_ne_nil v)]
    simp
  rw [segments_join] at hinside
  cases hss : segments (joinWith ['/'] ts) with
  | nil => exact segments_ne_nil _ hss
  | cons s ss =>
    rw [hss] at hinside
    exact dot_notMem_dropLast_dotless ss hinside

/-- **Joining drops the dot segments between the first segment and the last, and changes nothing
else.** The texts are joined with slashes and cut at every slash. What is left of the segments makes
up the joined path, which is not changed by joining it again and has no dot between slashes. -/
theorem join_by_segments (ts : List Text) :
    join? (ts.map some) = some (join ts) ∧
      join ts = joinWith ['/'] (undotted (segments (joinWith ['/'] ts))) ∧
      segments (join ts) = undotted (segments (joinWith ['/'] ts)) ∧
      join [join ts] = join ts ∧ ¬"/./".toList <:+: join ts := by
  have hall : (ts.map some).mapM id = some ts := by
    rw [List.mapM_map]
    simpa using List.mapM_pure (m := Option) (l := ts) (f := id)
  have hjoin : join? (ts.map some) = some (join ts) := congrArg (Option.map join) hall
  have hsegments := segments_join ts
  exact ⟨hjoin, by rw [← hsegments, joinWith_segments], hsegments, join_singleton_join ts,
    dot_not_infix_join ts⟩

example : join ["./..".toList, "./././a.".toList, "./.".toList] = "./../a./.".toList := by decide

end Vitae.Path
