import Mathlib.Data.Finset.Card
import Vitae.Proofs.Reader.Strictness

/-!
# How readings end

A document that imports another cannot be imported by it, directly or through further documents. So
with each import that is nested in another, one of the documents of the library is open that was not
open before, and if the library holds finitely many documents, imports cannot be nested deeper than
that (`Reader.halt_ne_tooDeep`). What is left to halt a reading is a refusal, and a tolerant reader
gets to the end of every document (`Reader.halt_readWithin_tolerant`).
-/

namespace Vitae

/-- All documents that the library answers with have their paths among these. -/
def Library.Within (library : Library) (paths : Finset Text) : Prop :=
  ∀ path source, library.fetch path = .ok source → path ∈ paths

/-- The paths of a collection of documents. -/
def Library.pathsOf (documents : List (Text × Text)) : Finset Text :=
  (documents.map Prod.fst).toFinset

theorem Library.within_ofList (documents : List (Text × Text)) :
    (Library.ofList documents).Within (Library.pathsOf documents) := by
  intro path source h
  simp only [ofList] at h
  split at h
  · rename_i found hlookup
    obtain ⟨before, behind, rfl, -⟩ := List.lookup_eq_some_iff.1 hlookup
    simp [pathsOf]
  · cases h

theorem Library.card_pathsOf_le (documents : List (Text × Text)) :
    (Library.pathsOf documents).card ≤ documents.length := by
  have h := List.toFinset_card_le (documents.map Prod.fst)
  rwa [List.length_map] at h

namespace Reader

variable {env : Settings} {opened : List Text}

/-- **With finitely many documents imports are not nested too deep**, if there are more levels than
documents that are not open yet. -/
theorem halt_ne_tooDeep {paths : Finset Text} (hpaths : env.library.Within paths) (levels : Nat) :
    ∀ (opened : List Text) (source : Text), (paths \ opened.toFinset).card < levels →
      (readWithin env levels opened source).halt ≠ some .tooDeep := by
  induction levels with
  | zero => exact fun _ _ h => absurd h (Nat.not_lt_zero _)
  | succ levels ih =>
    intro opened source hcard hhalt
    obtain ⟨s, directive, himport⟩ := exists_import_of_halt env opened hhalt
    obtain ⟨o, ho, hcase⟩ := addImport_cases env opened
      (fun path source => readWithin env levels (path :: opened) source) s directive
    rw [ho] at himport
    cases hcase with
    | noTarget h target =>
      cases himport
      rcases Import.error_of_target target with ⟨t, heq⟩ | ⟨fault, heq⟩ <;> cases heq
    | halted path source h target notOpen fetch halt =>
      cases himport
      -- the document that is imported is one less to open:
      have hmem : path ∈ paths \ opened.toFinset :=
        Finset.mem_sdiff.2 ⟨hpaths path source fetch, by rwa [List.mem_toFinset]⟩
      have hless : (paths \ (path :: opened).toFinset).card < (paths \ opened.toFinset).card := by
        rw [List.toFinset_cons, Finset.sdiff_insert]
        exact Finset.card_erase_lt_of_mem hmem
      exact ih (path :: opened) source (by omega) halt
    | cycle | unreadable | read => cases himport

theorem halt_readWithin_tolerant {folder : Text} (htolerant : env.strict = false)
    (hroot : env.root = .ok folder) {levels : Nat} {source : Text}
    (hdeep : (readWithin env levels opened source).halt ≠ some .tooDeep) :
    (readWithin env levels opened source).halt = none := by
  have hself : { env with strict := false } = env := by rw [← htolerant]
  have hsettled := halt_ne_refused env levels opened source
  rw [hself] at hsettled
  cases halt : (readWithin env levels opened source).halt with
  | none => rfl
  | some h =>
    cases h with
    | refused refusal => exact absurd halt (hsettled refusal)
    | badRoot fault => exact absurd halt (halt_readWithin env hroot levels opened source fault)
    | tooDeep => exact absurd halt hdeep

end Reader

end Vitae
