import Vitae.Instant.Reading
import Vitae.Proofs.Import.Target
import Vitae.Proofs.Reader.FileCycle

/-!
# Files that import themselves

While a file is read, it is open under its own path. The targets of imports are compared with that
path as texts, so a spelling with a target of its own would get the file read again. There is none
among the spellings of its name (`Import.Spells`): each of them has the own path as its target
(`Settings.target_of_spells`), so the import is refused wherever it stands, in the file itself or in
a document that it imports, and the library is not asked (`Settings.own_name_refused`).
-/

namespace Vitae

open Text Reader

theorem Attempt.refused_of_mem {env : Settings} {a : Attempt} {path : Text}
    (target : Import.target env.root a.directive = .ok path) (isOpen : path ∈ a.opened) :
    a.refusal? env = some (.cycle path) ∧ a.asked? env = none := by
  have result : a.result env = .error (.refused (.cycle path)) :=
    Import.resolve_of_mem target isOpen
  rw [refusal?, asked?, result]
  exact ⟨rfl, rfl⟩

namespace Settings

variable {defaults : Settings} {given : Option (Settings × Text)} {disk : Disk} {path : Text}

/-- The name of a file, with its suffix or without it. -/
def NamesFile (path name : Text) : Prop :=
  name = fileName path ∨ name ++ Path.suffix = fileName path ∧ ¬Path.suffix <:+ name

theorem NamesFile.normalize {name : Text} (h : NamesFile path name) :
    Path.normalize name = Path.normalize (fileName path) := by
  rcases h with rfl | ⟨hname, hsuffix⟩
  · rfl
  · rw [← hname, Path.normalize_append_suffix hsuffix]

/-- **However the name of the file is spelled, its target is the path of the file itself.** -/
theorem target_of_spells {name directive : Text} (hname : NamesFile path name)
    (h : Import.Spells name directive) :
    Import.target (defaults.forFile given disk path).root directive =
      .ok (ownPath given path) := by
  rw [root_forFile, h.target, hname.normalize, ownPath]

theorem ownPath_mem_opened {levels : Nat} {source : Text} {a : Attempt}
    (ha : a ∈ attemptsWithin (defaults.forFile given disk path) levels [ownPath given path]
      source) : ownPath given path ∈ a.opened := by
  obtain ⟨enclosing, hopened, -⟩ := fetched_of_mem_attempts levels _ source a ha
  rw [hopened]
  exact List.mem_append_right enclosing (List.mem_singleton_self _)

/-- **A file is not read again under a different spelling of its name.** Let the file at `path` be
readable, with given settings and a root folder or without.

1. Below any root folder a path has one target, with any number of `./` in front of it, with the
   suffix added if it has none, and whatever blanks surround the quotes.
2. The file is read as a document that is open under its own path. The calls of the library and the
   refusals are those of the attempts to import, in the file and in the documents that it imports.
3. A directive that spells the name of the file, with its suffix or without it, halts the reading as
   a cycle wherever the file is open, with nothing called.
4. So all attempts with such a directive are refused as cycles, and none asks for a document. -/
theorem own_name_refused (defaults : Settings) (given : Option (Settings × Text)) (disk : Disk)
    (path : Text) {source : Text} (readable : disk.read path = .ok source) :
    let env := defaults.forFile given disk path
    let own := ownPath given path
    let attempts := env.attempts [own] source
    let reading := env.read [own] source
    (∀ root p, ∀ directive, Import.Spells p directive →
        Import.target (.ok root) directive = .ok (Path.join [root, Path.normalize p])) ∧
      (defaults.readFromDisk (given.map (onDisk disk)) disk path = .ok reading ∧
        reading.yield.fetches = attempts.filterMap (Attempt.asked? env) ∧
        reading.yield.refusals reading.halt = attempts.filterMap (Attempt.refusal? env)) ∧
      ∀ name, NamesFile path name → ∀ directive, Import.Spells name directive →
        (∀ opened nested s, own ∈ opened → addImport env opened nested s directive =
          ⟨s.fill .directive, 0, .empty, some (.refused (.cycle own))⟩) ∧
        ∀ a ∈ attempts, a.directive = directive →
          a.refusal? env = some (.cycle own) ∧ a.asked? env = none := by
  intro env own attempts reading
  have hread : defaults.readFromDisk (given.map (onDisk disk)) disk path = .ok reading := by
    rw [readFromDisk_eq, readable]
    rfl
  have hrecorded : Recorded env attempts reading.yield reading.halt :=
    recorded_readWithin _ [own] source
  refine ⟨fun root p directive h => h.target root,
    ⟨hread, hrecorded.fetches, hrecorded.refusals⟩, fun name hname directive h => ?_⟩
  have htarget : Import.target env.root directive = .ok own := target_of_spells hname h
  refine ⟨fun opened nested s isOpen => addImport_of_mem env opened nested s htarget isOpen, ?_⟩
  rintro a ha rfl
  exact Attempt.refused_of_mem htarget (ownPath_mem_opened ha)

/-- A file of a folder that imports itself as `././a`: one refusal, and nothing is asked for. -/
theorem own_name_refused_dots :
    let directive := "  \"././a\"".toList
    let source := "@import".toList ++ (directive ++ ['\n'])
    let way := ["home".toList, "cv".toList, "a.resume".toList]
    let disk : Disk := ⟨[(way, Utf8.encode source)], [], []⟩
    let path := "/home/cv/a.resume".toList
    let env := (standard (Instant.read? 2026) id).forFile none disk path
    let reading := env.read [path] source
    disk.read path = .ok source ∧ NamesFile path "a".toList ∧
      Import.Spells "a".toList directive ∧ ownPath none path = path ∧
      reading.yield.fetches = [] ∧ reading.yield.refusals reading.halt = [.cycle path] := by
  intro directive source way disk path env reading
  have readable : disk.read path = .ok source := Disk.read_of_bytes rfl (by decide)
  have hname : NamesFile path "a".toList := .inr (by decide)
  have hspells : Import.Spells "a".toList directive :=
    .plain (allBlank_replicate_space 2) allBlank_nil 2
  have hown : ownPath none path = path := by decide
  have hall := own_name_refused (standard (Instant.read? 2026) id) none disk path readable
  rw [hown] at hall
  obtain ⟨-, ⟨-, hfetches, hrefusals⟩, hrefused⟩ := hall
  obtain ⟨hhalted, hattempt⟩ := hrefused _ hname _ hspells
  -- the import is the only attempt:
  have hattempts : env.attempts [path] source = [⟨[path], directive⟩] := by
    have hfirst : statement? source = some (.inclusion directive, []) :=
      statement?_inclusion (by decide)
    have htarget : Import.target env.root directive = .ok path :=
      hown ▸ target_of_spells hname hspells
    have hresult : Attempt.result env ⟨[path], directive⟩ = .error (.refused (.cycle path)) :=
      Import.resolve_of_mem htarget (List.mem_singleton_self path)
    rw [attempts, attemptsWithin, attemptsAlong_of_inclusion hfirst,
      hhalted _ _ _ (List.mem_singleton_self path), attemptsInside, hresult]
    rfl
  rw [hattempts] at hattempt
  obtain ⟨hrefusal, hasked⟩ := hattempt _ (List.mem_singleton_self _) rfl
  rw [hattempts] at hfetches hrefusals
  refine ⟨readable, hname, hspells, hown, hfetches.trans ?_, hrefusals.trans ?_⟩
  · rw [List.filterMap_cons_none hasked, List.filterMap_nil]
  · rw [List.filterMap_cons_some hrefusal, List.filterMap_nil]

end Settings

end Vitae
