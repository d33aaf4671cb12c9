import Vitae.Instant.Reading
import Vitae.Proofs.Library.Disk
import Vitae.Proofs.Literal.Quotes
import Vitae.Proofs.Reader.Attempt

/-!
# Cycles among files

While a file is read it is open under a path of its own, made from the root folder of imports and the
name of the file (`Settings.ownPath`). An import of this path is refused as a cycle, so the path should
name the file. Whether it does depends on the root folder and on the name alone; if it does, and only
then, is every import that is refused as a cycle an import of a document that is being read, whatever
the files hold (`Settings.cycles_real_iff`).
-/

namespace Vitae

open Text Reader

/-! ### Targets -/

namespace Import

theorem target_eq {root directive path : Text} (h : target (.ok root) directive = .ok path) :
    path = Path.join [root, Path.normalize (Literal.unwrap directive)] := by
  unfold target at h
  dsimp only at h
  split_ifs at h
  exact (Except.ok.inj h).symm

theorem target_quotedName (root name : Text) :
    target (.ok root) (quotedName name) = .ok (Path.join [root, Path.normalize name]) := by
  have hquoted : quotedName name = [' '] ++ Writer.inQuotes name := rfl
  have hunwrap : Literal.unwrap (quotedName name) = name := by
    rw [hquoted, Literal.unwrap_blank_append allBlank_space, Literal.unwrap_inQuotes]
  have hquote : (trim (quotedName name)).head? = some '"' := by
    have htrim : trim (Writer.inQuotes name) = Writer.inQuotes name :=
      trim_between (k := ['"']) (v := ['"']) rfl (by simp) rfl (by simp) name
    rw [hquoted, trim_blank_append allBlank_space, htrim]
    rfl
  unfold target
  rw [if_pos hquote]
  simp only [hunwrap]

/-- Where two names have the same target below a folder, a character of one is one of the other,
unless it is a slash or one of the suffix. -/
theorem mem_of_join_eq {root name name' : Text} {c : Char} (hslash : c ≠ '/')
    (hsuffix : c ∉ Path.suffix)
    (h : Path.join [root, Path.normalize name] = Path.join [root, Path.normalize name'])
    (hmem : c ∈ name') : c ∈ name := by
  have hdot : c ≠ '.' := fun hdot => hsuffix (hdot ▸ by decide)
  have hcount := congrArg (List.count c) h
  rw [Path.count_join hdot hslash, Path.count_join hdot hslash, Path.count_normalize hsuffix,
    Path.count_normalize hsuffix] at hcount
  have hpos := List.count_pos_iff.2 hmem
  exact List.count_pos_iff.1 (by omega)

end Import

/-! ### The path of the file itself -/

namespace Settings

/-- The last name of a path. -/
def fileName (path : Text) : Text :=
  ((Disk.names path).getLast?).getD []

variable (defaults : Settings) (given : Option (Settings × Text)) (disk : Disk) (path : Text)

/-- The root folder of imports: the one that is given, or the folder of the file. -/
def rootFor : Text :=
  (given.map Prod.snd).getD (Disk.folderOf path)

/-- Given settings with a root folder, where the library is the disk. -/
def onDisk (disk : Disk) (given : Settings × Text) : Settings :=
  { given.1 with root := .ok given.2, library := disk.toLibrary }

/-- The settings that a file of a disk is read with. -/
def forFile : Settings :=
  (given.map (onDisk disk)).getD (defaults.ofFile disk path)

/-- The path under which a file is open while it is read. -/
def ownPath : Text :=
  Path.join [rootFor given path, Path.normalize (fileName path)]

/-- The documents that are refused as cycles are being read: they are the file itself or those of the
imports that are open, to whatever depth imports are followed. -/
def CyclesReal (source : Text) : Prop :=
  let env := defaults.forFile given disk path
  ∀ levels, ∀ a ∈ attemptsWithin env levels [ownPath given path] source, ∀ target,
    a.refusal? env = some (.cycle target) →
      ∃ document ∈ path :: a.opened.dropLast, disk.SameFile target document

variable {defaults given disk path}

theorem root_forFile : (defaults.forFile given disk path).root = .ok (rootFor given path) := by
  cases given <;> rfl

theorem library_forFile : (defaults.forFile given disk path).library = disk.toLibrary := by
  cases given <;> rfl

theorem readFromDisk_eq (defaults : Settings) (given : Option (Settings × Text)) (disk : Disk)
    (path : Text) : defaults.readFromDisk (given.map (onDisk disk)) disk path =
      (disk.read path).map ((defaults.forFile given disk path).read [ownPath given path]) := by
  have hroot : (defaults.forFile given disk path).root = .ok (rootFor given path) := root_forFile
  unfold forFile at hroot
  unfold readFromDisk
  cases disk.read path with
  | error fault => rfl
  | ok source =>
    simp only [bind, Except.bind, hroot]
    rfl

/-- Where the name of the file has a line end, no import comes to the path of the file itself. -/
theorem target_ne_ownPath {levels : Nat} {source : Text} {a : Attempt} (hsource : '\r' ∉ source)
    (ha : a ∈ attemptsWithin (defaults.forFile given disk path) levels [ownPath given path] source)
    (hname : '\n' ∈ fileName path ∨ '\r' ∈ fileName path) :
    Import.target (defaults.forFile given disk path).root a.directive ≠
      .ok (ownPath given path) := by
  have hfetch : ∀ path' source, (defaults.forFile given disk path).library.fetch path' = .ok source →
      ∀ c ∈ source, c ≠ '\r' := by
    intro path' source fetch c hc
    rw [library_forFile] at fetch
    exact ne_of_mem_of_not_mem hc (Disk.bytes_of_read fetch).2
  obtain ⟨hline, hreturn⟩ := directive_of_mem_attempts hfetch levels _ source
    (fun c hc => ne_of_mem_of_not_mem hc hsource) a ha
  intro target
  rw [root_forFile] at target
  have heq := (Import.target_eq target).symm
  rcases hname with hname | hname
  · exact hline (Literal.mem_of_mem_unwrap
      (Import.mem_of_join_eq (by decide) (by decide) heq hname))
  · have hmem := Literal.mem_of_mem_unwrap
      (Import.mem_of_join_eq (by decide) (by decide) heq hname)
    exact hreturn _ hmem rfl

theorem cyclesReal_of_sameFile {source : Text} (readable : disk.read path = .ok source)
    (hown : disk.SameFile (ownPath given path) path ∨
      ('\n' ∈ fileName path ∨ '\r' ∈ fileName path)) :
    CyclesReal defaults given disk path source := by
  intro levels a ha target hrefused
  obtain ⟨htarget, hopen⟩ := Attempt.of_refusal?_eq_cycle hrefused
  obtain ⟨enclosing, hopened, -, hfetched⟩ := fetched_of_mem_attempts levels _ source a ha
  rw [hopened, List.dropLast_concat]
  rw [hopened, List.mem_append, List.mem_singleton] at hopen
  rcases hopen with hmem | rfl
  · obtain ⟨-, inner, fetch⟩ := hfetched target hmem
    rw [library_forFile] at fetch
    obtain ⟨⟨bytes, hbytes⟩, -⟩ := Disk.bytes_of_read fetch
    exact ⟨target, List.mem_cons_of_mem _ hmem, Disk.sameFile_self hbytes⟩
  · rcases hown with hsame | hname
    · exact ⟨path, List.mem_cons_self, hsame⟩
    · exact absurd htarget (target_ne_ownPath (Disk.bytes_of_read readable).2 ha hname)

theorem return_notMem_importLine {name : Text} (h : '\r' ∉ name) : '\r' ∉ importLine name := by
  have hkeyword : '\r' ∉ "@import".toList := by decide
  unfold importLine quotedName
  generalize "@import".toList = keyword at *
  simp [hkeyword, h]

variable (defaults given disk) in
theorem exists_refused_importLine (hline : '\n' ∉ fileName path) :
    ∃ a ∈ attemptsWithin (defaults.forFile given disk path) 1 [ownPath given path]
        (importLine (fileName path)),
      a.opened = [ownPath given path] ∧
        a.refusal? (defaults.forFile given disk path) = some (.cycle (ownPath given path)) := by
  have hfirst := statement?_importLine hline []
  rw [List.append_nil] at hfirst
  have htarget : Import.target (defaults.forFile given disk path).root
      (quotedName (fileName path)) = .ok (ownPath given path) := by
    rw [root_forFile, Import.target_quotedName]
    rfl
  refine ⟨⟨[ownPath given path], quotedName (fileName path)⟩, ?_, rfl, ?_⟩
  · rw [attemptsWithin, attemptsAlong_of_inclusion hfirst]
    exact List.mem_cons_self
  · exact (Attempt.refusal?_cycle_iff htarget _).2 ⟨rfl, List.mem_singleton_self _⟩

/-! ### When the path names the file -/

theorem exists_fileName {bytes : List UInt8} (h : disk.bytes path = .ok bytes) :
    Disk.names path = (Disk.names path).dropLast ++ [fileName path] ∧
      Disk.IsName (fileName path) ∧ fileName path ≠ ['.', '.'] := by
  obtain ⟨front, name, hnames, hname⟩ := Disk.exists_last_of_bytes h
  have hlast : fileName path = name := by simp [fileName, hnames]
  have hmem : name ∈ Disk.names path := by simp [hnames]
  rw [hlast, hnames, List.dropLast_concat]
  exact ⟨rfl, (Disk.isName_of_mem_names hmem).1, hname⟩

theorem names_ownPath (h : Disk.IsName (fileName path)) : Disk.names (ownPath given path) =
    Disk.names (rootFor given path) ++ [Path.normalize (fileName path)] := by
  rw [ownPath, Path.names_join, List.flatMap_cons, List.flatMap_singleton,
    (Path.isName_normalize h).names_eq]

/-- The path of the file itself has the suffix, so it names the file only if the file has it. -/
theorem suffix_of_sameFile {bytes : List UInt8} (h : disk.bytes path = .ok bytes)
    (hsame : disk.SameFile (ownPath given path) path) : Path.suffix <:+ fileName path := by
  obtain ⟨hnames, hname, hdown⟩ := exists_fileName h
  have hdown' : Path.normalize (fileName path) ≠ ['.', '.'] := by
    intro hup
    have hlength := (Path.suffix_normalize (fileName path)).length_le
    rw [hup, Path.length_suffix] at hlength
    exact absurd hlength (by decide)
  obtain ⟨way, hown, hpath⟩ := hsame
  have hwayOwn := (Disk.way_of_names (names_ownPath hname) hdown').symm.trans
    (Disk.file?_eq_some_iff.1 hown).2
  have hwayPath := (Disk.way_of_names hnames hdown).symm.trans (Disk.file?_eq_some_iff.1 hpath).2
  have hlast := congrArg List.getLast? (hwayOwn.trans hwayPath.symm)
  simp only [List.getLast?_concat, Option.some.injEq] at hlast
  exact Path.normalize_eq_self_iff.1 hlast

theorem sameFile_ownPath {bytes : List UInt8} (h : disk.bytes path = .ok bytes)
    (hsuffix : Path.suffix <:+ fileName path) : disk.SameFile (ownPath none path) path := by
  obtain ⟨hnames, hname, -⟩ := exists_fileName h
  have hroot : rootFor none path = Disk.folderOf path := rfl
  have hnamesOwn : Disk.names (ownPath none path) = Disk.names path := by
    rw [names_ownPath hname, Path.normalize_of_suffix hsuffix, hroot, Disk.names_folderOf, ← hnames]
  have hown : ownPath none path = Path.join [Disk.folderOf path, fileName path] := by
    rw [ownPath, Path.normalize_of_suffix hsuffix, hroot]
  have hhead : (ownPath none path).head? = some '/' ↔ path.head? = some '/' := by
    rw [hown, Path.head?_join]
    exact Disk.head?_folderOf path
  have hpath0 : '\x00' ∉ path := Disk.null_notMem_of_bytes h
  have hnull : '\x00' ∉ ownPath none path := by
    have hfolder : '\x00' ∉ Disk.folderOf path := fun hmem =>
      hpath0 (Disk.mem_of_mem_folderOf (by decide) (by decide) hmem)
    have hfile : '\x00' ∉ fileName path := by
      intro hmem
      have hlast : fileName path ∈ Disk.names path := by
        rw [hnames]
        simp
      exact hpath0 ((Disk.isName_of_mem_names hlast).2 _ hmem)
    rw [hown, ← List.count_eq_zero, Path.count_join (by decide) (by decide),
      List.count_eq_zero.2 hfolder, List.count_eq_zero.2 hfile]
  have hfile := Disk.file?_congr (d := disk) hnamesOwn hhead hnull hpath0
  obtain ⟨way, hway, -⟩ := Disk.sameFile_self h
  exact ⟨way, hfile.trans hway, hway⟩

/-- **The imports of a file are refused as cycles rightly if its own path names the file, and only
then.** Let the file at `path` be readable, with given settings and a root folder or without.

1. The file is read as a document that is open under its own path, and the refusals that are noted
   or raised are those of the attempts to import.
2. Each import that is refused as a cycle names a document that is being read, whatever the files
   hold, if and only if the own path names the file or cannot be spelled, since the name has a line
   end.
3. The own path names the file only if the file has the suffix. Without given settings this is
   enough. -/
theorem cycles_real_iff (defaults : Settings) (given : Option (Settings × Text)) (disk : Disk)
    (path : Text) {source : Text} (readable : disk.read path = .ok source) :
    let env := defaults.forFile given disk path
    let own := ownPath given path
    let reading := env.read [own] source
    (defaults.readFromDisk (given.map (onDisk disk)) disk path = .ok reading ∧
        reading.yield.refusals reading.halt =
          (env.attempts [own] source).filterMap (Attempt.refusal? env)) ∧
      ((∀ disk' : Disk, disk'.SameLayout disk → ∀ source', disk'.read path = .ok source' →
          CyclesReal defaults given disk' path source') ↔
        disk.SameFile own path ∨ ('\n' ∈ fileName path ∨ '\r' ∈ fileName path)) ∧
      (disk.SameFile own path → Path.suffix <:+ fileName path) ∧
      (given = none → Path.suffix <:+ fileName path → disk.SameFile own path) := by
  intro env own reading
  obtain ⟨⟨bytes, hbytes⟩, -⟩ := Disk.bytes_of_read readable
  have hread : defaults.readFromDisk (given.map (onDisk disk)) disk path = .ok reading := by
    rw [readFromDisk_eq, readable]
    rfl
  refine ⟨⟨hread, (recorded_readWithin _ [own] source).refusals⟩, ⟨?_, ?_⟩,
    suffix_of_sameFile hbytes, ?_⟩
  · intro hreal
    by_contra hown
    obtain ⟨hother, hname⟩ := not_or.1 hown
    obtain ⟨hline, hreturn⟩ := not_or.1 hname
    -- all files hold the line that imports the name of the file:
    let disk' := disk.filled (Utf8.encode (importLine (fileName path)))
    have hbytes' : disk'.bytes path = .ok (Utf8.encode (importLine (fileName path))) := by
      rw [Disk.bytes_filled, hbytes]
      rfl
    have readable' : disk'.read path = .ok (importLine (fileName path)) :=
      Disk.read_of_bytes hbytes' (return_notMem_importLine hreturn)
    obtain ⟨a, ha, hopened, hrefused⟩ :=
      exists_refused_importLine defaults given disk' hline
    obtain ⟨document, hmem, hsame⟩ :=
      hreal disk' (disk.sameLayout_filled _) _ readable' 1 a ha own hrefused
    rw [hopened, List.dropLast_singleton, List.mem_singleton] at hmem
    subst hmem
    exact hother ((disk.sameLayout_filled _).symm.sameFile hsame)
  · intro hown disk' hlayout source' readable'
    exact cyclesReal_of_sameFile readable' (hown.imp_left hlayout.sameFile)
  · rintro rfl hsuffix
    exact sameFile_ownPath hbytes hsuffix

/-- A file that imports itself, by its path from the top: its cycle is real. -/
theorem cycles_real_iff_itself :
    let way := ["home".toList, "cv".toList, "a.resume".toList]
    let disk : Disk := ⟨[(way, Utf8.encode (importLine "a".toList))], [], ["home".toList]⟩
    let path := "/home/cv/a.resume".toList
    disk.read path = .ok (importLine "a".toList) ∧ ownPath none path = path ∧
      CyclesReal (standard (Instant.read? 2026) id) none disk path (importLine "a".toList) := by
  intro way disk path
  have readable : disk.read path = .ok (importLine "a".toList) :=
    Disk.read_of_bytes rfl (by decide)
  have hall := cycles_real_iff (standard (Instant.read? 2026) id) none disk path readable
  have hsuffix : Path.suffix <:+ fileName path := by decide
  exact ⟨readable, by decide, hall.2.1.2 (.inl (hall.2.2.2 rfl hsuffix)) disk rfl _ readable⟩

/-- A file is read with another root folder, where a file of the same name stands. It imports this
file, and the import is refused although neither file imports itself. -/
theorem cycle_not_real : ∃ (defaults : Settings) (given : Option (Settings × Text)) (disk : Disk)
    (path source : Text), disk.read path = .ok source ∧
      ¬CyclesReal defaults given disk path source := by
  let way := ["cv".toList, "a.resume".toList]
  let other := ["lib".toList, "a.resume".toList]
  let disk : Disk := ⟨[(way, Utf8.encode (importLine "a.resume".toList)),
    (other, Utf8.encode "label L:v\n".toList)], [], []⟩
  let path := "cv/a.resume".toList
  let given : Option (Settings × Text) := some (standard (Instant.read? 2026) id, "lib".toList)
  have readable : disk.read path = .ok (importLine (fileName path)) :=
    Disk.read_of_bytes rfl (by decide)
  refine ⟨standard (Instant.read? 2026) id, given, disk, path, _, readable, fun hreal => ?_⟩
  have hline : '\n' ∉ fileName path := by decide
  obtain ⟨a, ha, hopened, hrefused⟩ :=
    exists_refused_importLine (standard (Instant.read? 2026) id) given disk hline
  obtain ⟨document, hmem, names, hown, hpath⟩ := hreal 1 a ha _ hrefused
  rw [hopened, List.dropLast_singleton, List.mem_singleton] at hmem
  subst hmem
  have hways : disk.way (ownPath given path) ≠ disk.way path := by decide
  exact hways ((Disk.file?_eq_some_iff.1 hown).2.trans (Disk.file?_eq_some_iff.1 hpath).2.symm)

end Settings

end Vitae
