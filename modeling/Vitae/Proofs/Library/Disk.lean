import Vitae.Proofs.Import.Path
import Vitae.Proofs.Library.Utf8

/-!
# Files and paths

A disk has no links, so the file that a path names is known from the names that are left when every
`..` has taken back the name before it: `Disk.way` gives them, and the file stands there
(`Disk.lookup_of_bytes`). Two paths name the same file (`Disk.SameFile`) if the same names are left.

Which file a path names does not depend on what the files hold (`Disk.bytes_filled`). A file may hold
any text without carriage returns (`Disk.read_of_bytes`).
-/

namespace Vitae

open Text

namespace Disk

variable {d d' : Disk} {path : Text}

/-! ### The file that a path names -/

/-- The names on a way after one more name. Above the top there is the top. -/
def follow (way : List Text) (name : Text) : List Text :=
  if name = ['.', '.'] then way.dropLast else way ++ [name]

/-- The names from the top that are left of a path when every `..` has taken back the name before
it. -/
def way (d : Disk) (path : Text) : List Text :=
  (names path).foldl follow (d.start path)

/-- The file that a path names, by the names on the way to it. -/
def file? (d : Disk) (path : Text) : Option (List Text) :=
  match d.bytes path with
  | .ok _ => some (d.way path)
  | .error _ => none

/-- Two paths name the same file. -/
def SameFile (d : Disk) (p q : Text) : Prop :=
  ∃ way, d.file? p = some way ∧ d.file? q = some way

/-- A place is where a way leads to. -/
def Place.At (d : Disk) (way : List Text) : Place → Prop
  | .folder names => way = names
  | .file bytes => d.files.lookup way = some bytes

theorem Place.At.step {way : List Text} {place place' : Place} {name : Text}
    (h : place.At d way) (hstep : d.step place name = .ok place') :
    place'.At d (follow way name) := by
  cases place with
  | file bytes => cases hstep
  | folder names =>
    obtain rfl : way = names := h
    unfold follow
    simp only [Disk.step] at hstep
    by_cases hup : name = ['.', '.']
    · rw [if_pos hup] at hstep ⊢
      cases hstep
      rfl
    · rw [if_neg hup] at hstep ⊢
      cases hfile : d.files.lookup (way ++ [name]) with
      | some bytes =>
        rw [hfile] at hstep
        cases hstep
        exact hfile
      | none =>
        simp only [hfile] at hstep
        split_ifs at hstep
        cases hstep
        rfl

theorem Place.At.foldlM {way : List Text} {place place' : Place} {names : List Text}
    (h : place.At d way) (hfold : names.foldlM d.step place = .ok place') :
    place'.At d (names.foldl follow way) := by
  induction names generalizing way place with
  | nil =>
    cases hfold
    exact h
  | cons name names ih =>
    cases hstep : d.step place name with
    | error fault => simp [List.foldlM_cons, hstep, bind, Except.bind] at hfold
    | ok next =>
      simp only [List.foldlM_cons, hstep, bind, Except.bind] at hfold
      exact ih (h.step hstep) hfold

/-- The bytes at the place where a path ends. -/
theorem bytes_eq (d : Disk) (path : Text) : d.bytes path =
    if path.contains '\x00' then .error .nullInPath
    else match (names path).foldlM d.step (.folder (d.start path)) with
      | .ok (.file bytes) => .ok bytes
      | .ok (.folder _) => .error .isFolder
      | .error fault => .error fault := by
  rw [bytes]
  by_cases hnull : path.contains '\x00' = true
  · rw [if_pos hnull, if_pos hnull]
    rfl
  · rw [if_neg hnull, if_neg hnull]
    dsimp only
    cases (names path).foldlM d.step (.folder (d.start path)) with
    | error fault => rfl
    | ok place => cases place <;> rfl

theorem foldlM_of_bytes {bytes : List UInt8} (h : d.bytes path = .ok bytes) :
    (names path).foldlM d.step (.folder (d.start path)) = .ok (.file bytes) := by
  rw [bytes_eq] at h
  split_ifs at h
  split at h
  · rename_i hfold
    cases h
    exact hfold
  · cases h
  · cases h

/-- **The file that a path names stands where the names lead that are left of the path.** -/
theorem lookup_of_bytes {bytes : List UInt8} (h : d.bytes path = .ok bytes) :
    d.files.lookup (d.way path) = some bytes := by
  have hat : Place.At d (d.start path) (.folder (d.start path)) := rfl
  exact hat.foldlM (foldlM_of_bytes h)

theorem file?_eq_some_iff {way : List Text} :
    d.file? path = some way ↔ (∃ bytes, d.bytes path = .ok bytes) ∧ d.way path = way := by
  unfold file?
  cases d.bytes path <;> simp

theorem sameFile_self {bytes : List UInt8} (h : d.bytes path = .ok bytes) :
    d.SameFile path path := by
  have hfile := file?_eq_some_iff.2 ⟨⟨bytes, h⟩, rfl⟩
  exact ⟨_, hfile, hfile⟩

/-- Two paths of the same file give the same bytes. -/
theorem SameFile.bytes_eq {p q : Text} (h : d.SameFile p q) : d.bytes p = d.bytes q := by
  obtain ⟨way, hp, hq⟩ := h
  obtain ⟨⟨bytes, hbytes⟩, rfl⟩ := file?_eq_some_iff.1 hp
  obtain ⟨⟨bytes', hbytes'⟩, hway⟩ := file?_eq_some_iff.1 hq
  have hlookup := lookup_of_bytes hbytes
  rw [← hway, lookup_of_bytes hbytes'] at hlookup
  rw [hbytes, hbytes', Option.some.inj hlookup]

/-- A path to a file ends with a name that goes down. -/
theorem exists_last_of_bytes {bytes : List UInt8} (h : d.bytes path = .ok bytes) :
    ∃ front name, names path = front ++ [name] ∧ name ≠ ['.', '.'] := by
  have hfold := foldlM_of_bytes h
  rcases List.eq_nil_or_concat (names path) with hnil | ⟨front, name, hlast⟩
  · rw [hnil, List.foldlM_nil] at hfold
    cases hfold
  · rw [List.concat_eq_append] at hlast
    refine ⟨front, name, hlast, ?_⟩
    rintro rfl
    rw [hlast, List.foldlM_append] at hfold
    cases hfront : front.foldlM d.step (.folder (d.start path)) with
    | error fault =>
      rw [hfront] at hfold
      cases hfold
    | ok place =>
      rw [hfront] at hfold
      cases place <;> cases hfold

theorem null_notMem_of_bytes {bytes : List UInt8} (h : d.bytes path = .ok bytes) :
    '\x00' ∉ path := by
  rw [bytes_eq] at h
  split_ifs at h with hnull
  simpa using hnull

/-- The way of a path ends with its last name. -/
theorem way_of_names {front : List Text} {name : Text} (hnames : names path = front ++ [name])
    (hname : name ≠ ['.', '.']) :
    d.way path = front.foldl follow (d.start path) ++ [name] := by
  rw [way, hnames, List.foldl_append, List.foldl_cons, List.foldl_nil, follow, if_neg hname]

/-- A path depends on its names and on where it starts. -/
theorem file?_congr {p q : Text} (hnames : names p = names q)
    (hstart : p.head? = some '/' ↔ q.head? = some '/') (hp0 : '\x00' ∉ p) (hq0 : '\x00' ∉ q) :
    d.file? p = d.file? q := by
  have hfrom : d.start p = d.start q := by simp only [start, hstart]
  have hbytes : d.bytes p = d.bytes q := by simp [bytes_eq, hnames, hfrom, hp0, hq0]
  have hway : d.way p = d.way q := by rw [way, way, hnames, hfrom]
  rw [file?, file?, hbytes, hway]

/-! ### The folder of a path -/

theorem anchor_cases (path : Text) :
    (anchor path = [] ∧ path.head? ≠ some '/') ∨
      (∃ t, anchor path = '/' :: t ∧ t ⊆ ['/']) ∧ path.head? = some '/' := by
  unfold anchor
  split
  · exact .inr ⟨⟨[], rfl, by simp⟩, rfl⟩
  · exact .inr ⟨⟨['/'], rfl, by simp⟩, rfl⟩
  · exact .inr ⟨⟨[], rfl, by simp⟩, rfl⟩
  · rename_i hother
    refine .inl ⟨rfl, fun hhead => ?_⟩
    obtain ⟨t, rfl⟩ := List.head?_eq_some_iff.1 hhead
    exact hother t rfl

theorem names_anchor_append (path t : Text) : names (anchor path ++ t) = names t := by
  have hslash (u : Text) : names ('/' :: u) = names u := names_append_slash [] u
  unfold anchor
  split <;> simp [hslash]

theorem isName_of_mem_dropLast {name : Text} (h : name ∈ (names path).dropLast) :
    IsName name :=
  (isName_of_mem_names (List.dropLast_subset _ h)).1

theorem names_folderOf (path : Text) : names (folderOf path) = (names path).dropLast := by
  have hjoined : names (anchor path ++ joinWith ['/'] (names path).dropLast) =
      (names path).dropLast := by
    rw [names_anchor_append, Path.names_joinWith]
    exact flatMap_names fun name hmem => isName_of_mem_dropLast hmem
  unfold folderOf
  dsimp only
  split_ifs with hempty
  · rw [← hjoined, List.isEmpty_iff.1 hempty]
    rfl
  · exact hjoined

/-- The folder of a path starts where the path starts. -/
theorem head?_folderOf (path : Text) :
    (folderOf path ++ ['/']).head? = some '/' ↔ path.head? = some '/' := by
  unfold folderOf
  rcases anchor_cases path with ⟨hanchor, hhead⟩ | ⟨⟨t, hanchor, -⟩, hhead⟩
  · refine iff_of_false ?_ hhead
    rw [hanchor, List.nil_append]
    cases hfolder : (names path).dropLast with
    | nil => decide
    | cons name names' =>
      have hname := isName_of_mem_dropLast (hfolder ▸ List.mem_cons_self : name ∈ _)
      obtain ⟨c, name', rfl⟩ := List.exists_cons_of_ne_nil hname.ne_nil
      obtain ⟨u, hu⟩ := Path.prefix_joinWith (c :: name') names'
      have hc : c ≠ '/' := fun hc => hname.slash (hc ▸ List.mem_cons_self)
      simpa [← hu] using hc
  · refine iff_of_true ?_ hhead
    simp [hanchor]

theorem mem_of_mem_folderOf {c : Char} (hdot : c ≠ '.') (hslash : c ≠ '/')
    (h : c ∈ folderOf path) : c ∈ path := by
  have hanchor : c ∉ anchor path := by
    rcases anchor_cases path with ⟨hanchor, -⟩ | ⟨⟨t, hanchor, ht⟩, -⟩
    · simp [hanchor]
    · rw [hanchor]
      refine List.not_mem_cons_of_ne_of_not_mem hslash fun hmem => hslash ?_
      exact List.mem_singleton.1 (ht hmem)
  unfold folderOf at h
  dsimp only at h
  split_ifs at h
  · exact absurd (List.mem_singleton.1 h) hdot
  · obtain rfl | ⟨name, hmem, hc⟩ := Path.mem_joinWith ((List.mem_append.1 h).resolve_left hanchor)
    · exact absurd rfl hslash
    · exact (isName_of_mem_names (List.dropLast_subset _ hmem)).2 c hc

/-! ### The same files with other bytes -/

/-- The disk whose files all hold the same bytes. -/
def filled (d : Disk) (bytes : List UInt8) : Disk :=
  { d with files := d.files.map fun file => (file.1, bytes) }

/-- Two disks have the same files and folders. What the files hold may differ. -/
def SameLayout (d d' : Disk) : Prop :=
  d.filled [] = d'.filled []

theorem sameLayout_filled (d : Disk) (bytes : List UInt8) : (d.filled bytes).SameLayout d := by
  simp [SameLayout, filled]

/-- A place of a disk whose files hold the same bytes. -/
def Place.filled (bytes : List UInt8) : Place → Place
  | .file _ => .file bytes
  | .folder way => .folder way

theorem lookup_filled (d : Disk) (bytes : List UInt8) (way : List Text) :
    (d.filled bytes).files.lookup way = (d.files.lookup way).map fun _ => bytes := by
  have hmap (files : List (List Text × List UInt8)) :
      (files.map fun file => (file.1, bytes)).lookup way =
        (files.lookup way).map fun _ => bytes := by
    induction files with
    | nil => rfl
    | cons file files ih =>
      rw [List.map_cons, List.lookup_cons, List.lookup_cons]
      split
      · rfl
      · exact ih
  exact hmap d.files

theorem isFolder_filled (d : Disk) (bytes : List UInt8) (way : List Text) :
    (d.filled bytes).isFolder way = d.isFolder way := by
  simp [isFolder, filled, Function.comp_def]

theorem step_filled (d : Disk) (bytes : List UInt8) (place : Place) (name : Text) :
    (d.filled bytes).step (place.filled bytes) name =
      (d.step place name).map (Place.filled bytes) := by
  cases place with
  | file b => rfl
  | folder way =>
    simp only [Place.filled, Disk.step, lookup_filled, isFolder_filled]
    by_cases hup : name = ['.', '.']
    · simp only [if_pos hup]
      rfl
    · simp only [if_neg hup]
      cases d.files.lookup (way ++ [name]) with
      | some b => rfl
      | none =>
        simp only [Option.map_none]
        split_ifs <;> rfl

theorem foldlM_filled (d : Disk) (bytes : List UInt8) (place : Place) (names : List Text) :
    names.foldlM (d.filled bytes).step (place.filled bytes) =
      (names.foldlM d.step place).map (Place.filled bytes) := by
  induction names generalizing place with
  | nil => rfl
  | cons name names ih =>
    rw [List.foldlM_cons, List.foldlM_cons, step_filled]
    cases d.step place name with
    | error fault => rfl
    | ok next => exact ih next

/-- **What a path comes to does not depend on what the files hold.** -/
theorem bytes_filled (d : Disk) (bytes : List UInt8) (path : Text) :
    (d.filled bytes).bytes path = (d.bytes path).map fun _ => bytes := by
  have hfold : (names path).foldlM (d.filled bytes).step (.folder (d.start path)) = _ :=
    foldlM_filled d bytes (.folder (d.start path)) (names path)
  have hstart : (d.filled bytes).start path = d.start path := rfl
  rw [bytes_eq, bytes_eq, hstart, hfold]
  split_ifs
  · rfl
  · cases (names path).foldlM d.step (.folder (d.start path)) with
    | error fault => rfl
    | ok place => cases place <;> rfl

theorem file?_filled (d : Disk) (bytes : List UInt8) (path : Text) :
    (d.filled bytes).file? path = d.file? path := by
  have hway : (d.filled bytes).way path = d.way path := rfl
  rw [file?, file?, bytes_filled, hway]
  cases d.bytes path <;> rfl

/-- Disks with the same files have the same files at each path. -/
theorem SameLayout.sameFile (h : d'.SameLayout d) {p q : Text} (hsame : d.SameFile p q) :
    d'.SameFile p q := by
  unfold SameFile at hsame ⊢
  rw [← file?_filled d [], ← file?_filled d []] at hsame
  rwa [← file?_filled d' [], ← file?_filled d' [], h]

theorem SameLayout.symm (h : d'.SameLayout d) : d.SameLayout d' :=
  Eq.symm h

/-! ### Texts of files -/

theorem normalizeLineEnds_of_notMem {t : Text} (h : '\r' ∉ t) : normalizeLineEnds t = t := by
  fun_induction normalizeLineEnds t with
  | case1 => rfl
  | case2 t ih => simp at h
  | case3 c t hc ih =>
    have hne : c ≠ '\r' := fun heq => h (heq ▸ List.mem_cons_self)
    rw [if_neg hne, ih fun hmem => h (List.mem_cons_of_mem c hmem)]

theorem return_notMem_normalizeLineEnds (t : Text) : '\r' ∉ normalizeLineEnds t := by
  fun_induction normalizeLineEnds t with
  | case1 => exact List.not_mem_nil
  | case2 t ih => simpa using ih
  | case3 c t hc ih =>
    have hne : '\r' ≠ if c = '\r' then '\n' else c := by
      split_ifs with hreturn
      · decide
      · exact fun heq => hreturn heq.symm
    simp [hne, ih]

/-- The text of a file, if its bytes are one. -/
theorem read_eq (d : Disk) (path : Text) : d.read path =
    match d.bytes path with
    | .error fault => .error fault
    | .ok bytes =>
      match Utf8.decode? bytes with
      | some t => .ok (normalizeLineEnds t)
      | none => .error .notUtf8 := by
  unfold read
  cases d.bytes path with
  | error fault => rfl
  | ok bytes =>
    simp only [bind, Except.bind]
    cases Utf8.decode? bytes <;> rfl

/-- What is read at a path are the bytes of a file, without carriage returns. -/
theorem bytes_of_read {source : Text} (h : d.read path = .ok source) :
    (∃ bytes, d.bytes path = .ok bytes) ∧ '\r' ∉ source := by
  rw [read_eq] at h
  split at h
  · cases h
  · rename_i bytes hbytes
    split at h
    · cases h
      exact ⟨⟨bytes, hbytes⟩, return_notMem_normalizeLineEnds _⟩
    · cases h

/-- A file that holds the bytes of a text is read as this text. -/
theorem read_of_bytes {t : Text} (h : d.bytes path = .ok (Utf8.encode t)) (ht : '\r' ∉ t) :
    d.read path = .ok t := by
  rw [read_eq, h]
  simp only [Utf8.decode?_encode, normalizeLineEnds_of_notMem ht]

end Disk

end Vitae
