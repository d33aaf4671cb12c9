import Vitae.Proofs.Reader.Point
import Vitae.Proofs.Reader.Strictness

/-!
# Readings that do not depend on their surroundings

How a document is read depends on the documents that are open around it and on how deep imports may
still be nested. Both matter only where an import is refused as a cycle or is nested too deep.

* `Reader.run_congr` : two ways to import documents that come out the same wherever the one is good
  give the same reading of a document on which the one is good.
* `Reader.readWithin_stable` : a reading that is not cut short by the nesting of its imports is the
  same with any deeper nesting.
* `Reader.readWithin_of_calm` : a reading in which nothing is refused is the same with fewer
  documents open around it.
-/

namespace Vitae

/-- Nothing has been refused in a stretch that has this yield and ends like this. -/
def Calm (y : Yield) (halt : Option Halt) : Prop :=
  halt = none ∧ y.firstStop? = none

/-- Nothing is refused in a reading, in its document or in the imported ones. -/
def Reading.Calm (r : Reading) : Prop :=
  Vitae.Calm r.yield r.halt

namespace Reader

variable {env : Settings} {opened opened' : List Text} {nested nested' : Text → Text → Reading}

/-! ### One import -/

/-- An import comes out the same if its document is open for both readers or for none, and is read
the same by both. -/
theorem addImport_congr {s : ReaderState} {directive : Text}
    (hopen : ∀ path, Import.target env.root directive = .ok path →
      (path ∈ opened' ↔ path ∈ opened))
    (hnested : ∀ path source, Import.target env.root directive = .ok path → path ∉ opened →
      env.library.fetch path = .ok source → nested' path source = nested path source) :
    addImport env opened' nested' s directive = addImport env opened nested s directive := by
  cases target : Import.target env.root directive with
  | error h =>
    rw [addImport_of_error env opened' nested' s target,
      addImport_of_error env opened nested s target]
  | ok path =>
    by_cases isOpen : path ∈ opened
    · rw [addImport_of_mem env opened' nested' s target ((hopen path target).2 isOpen),
        addImport_of_mem env opened nested s target isOpen]
    · have notOpen : path ∉ opened' := fun h => isOpen ((hopen path target).1 h)
      rw [addImport_of_notMem env opened' nested' s target notOpen,
        addImport_of_notMem env opened nested s target isOpen]
      cases fetch : env.library.fetch path with
      | error fault => rfl
      | ok source => simp only [hnested path source target isOpen fetch]

/-! ### One document -/

section Congruence

/-- Imports come out the same in a second way wherever they are good in the first. -/
def AgreeWhere (good : Yield → Option Halt → Prop) (env : Settings) (opened : List Text)
    (nested : Text → Text → Reading) (opened' : List Text) (nested' : Text → Text → Reading) :
    Prop :=
  ∀ s directive, good (addImport env opened nested s directive).yield
      (addImport env opened nested s directive).halt →
    addImport env opened' nested' s directive = addImport env opened nested s directive

variable {good : Yield → Option Halt → Prop}

theorem complete_congr {s : ReaderState} {header : Header} {buffer rest : Text}
    (himport : AgreeWhere good env opened nested opened' nested')
    (hgood : good (complete env opened nested s header buffer rest).yield
      (complete env opened nested s header buffer rest).halt) :
    complete env opened' nested' s header buffer rest =
      complete env opened nested s header buffer rest := by
  cases header with
  | directive => exact himport s buffer hgood
  | title | labelId | labelContent id | blockId => rfl

theorem finish_congr {s : ReaderState}
    (himport : AgreeWhere good env opened nested opened' nested')
    (hgood : good (finish env opened nested s).yield (finish env opened nested s).halt) :
    finish env opened' nested' s = finish env opened nested s := by
  obtain ⟨phase, titles⟩ := s
  cases phase with
  | seeking word => rfl
  | filling header buffer => exact complete_congr himport hgood

theorem step_congr {s : ReaderState} {c : Char} {rest : Text}
    (himport : AgreeWhere good env opened nested opened' nested')
    (hgood : good (step env opened nested s c rest).yield (step env opened nested s c rest).halt) :
    step env opened' nested' s c rest = step env opened nested s c rest := by
  obtain ⟨phase, titles⟩ := s
  cases phase with
  | seeking word => rfl
  | filling header buffer =>
    unfold step at hgood ⊢
    dsimp only at hgood ⊢
    split_ifs at hgood ⊢ with hc
    · exact complete_congr himport hgood
    · rfl

/-- **A document on which the imports are good is read the same in another way that agrees with
them wherever they are good.** -/
theorem run_congr {position : Nat} {s : ReaderState} {t : Text}
    (hsplit : ∀ y z h, good (y ++ z) h → good y none ∧ good z h)
    (himport : AgreeWhere good env opened nested opened' nested')
    (hgood : good (run env opened nested position s t).yield
      (run env opened nested position s t).halt) :
    run env opened' nested' position s t = run env opened nested position s t := by
  fun_induction run env opened nested position s t with
  | case1 position s o =>
    have hend : (finish env opened' nested' s).andThen (finish env opened' nested') = o := by
      cases halt : (finish env opened nested s).halt with
      | some h =>
        have ho : o = finish env opened nested s := by simp only [o, Outcome.andThen, halt]
        rw [finish_congr himport (ho ▸ hgood), Outcome.andThen, halt, ho]
      | none =>
        have ho : o.yield = (finish env opened nested s).yield ++
            (finish env opened nested (finish env opened nested s).state).yield ∧
            o.halt = (finish env opened nested (finish env opened nested s).state).halt := by
          simp only [o, Outcome.andThen, halt, and_self]
        obtain ⟨hfirst, hsecond⟩ := hsplit _ _ _ (ho.1 ▸ ho.2 ▸ hgood)
        rw [finish_congr himport (halt ▸ hfirst), Outcome.andThen, halt]
        simp only [o, Outcome.andThen, halt, finish_congr himport hsecond]
    rw [run, hend]
  | case2 position s c rest o h ho =>
    have hstep : step env opened' nested' s c rest = o := step_congr himport (ho ▸ hgood)
    rw [run, hstep]
    simp only [ho]
  | case3 position s c rest o ho r ih =>
    obtain ⟨hfirst, hrest⟩ := hsplit _ _ _ hgood
    have hstep : step env opened' nested' s c rest = o := step_congr himport (ho ▸ hfirst)
    rw [run, hstep]
    simp only [ho, ih hrest]
    rfl

end Congruence

/-! ### Deeper nesting -/

theorem halt_tolerate_ne_tooDeep {r : Reading} :
    (tolerate env r).halt ≠ some .tooDeep ↔ r.halt ≠ some .tooDeep := by
  rw [Grammar.halt_tolerate]
  cases r.halt with
  | none => exact Iff.rfl
  | some h =>
    cases h with
    | refused refusal =>
      simp only
      split_ifs <;> simp
    | badRoot fault => exact Iff.rfl
    | tooDeep => exact Iff.rfl

/-- **A reading that is not cut short by the nesting of its imports is the same with any deeper
nesting.** -/
theorem readWithin_stable {levels levels' : Nat} (hle : levels ≤ levels') : ∀ {opened : List Text}
    {source : Text}, (readWithin env levels opened source).halt ≠ some .tooDeep →
      readWithin env levels' opened source = readWithin env levels opened source := by
  induction levels generalizing levels' with
  | zero =>
    intro opened source h
    exact absurd rfl h
  | succ levels ih =>
    intro opened source h
    obtain ⟨levels', rfl⟩ := Nat.exists_eq_add_of_le' hle
    rw [readWithin, halt_tolerate_ne_tooDeep] at h
    have himport : AgreeWhere (fun _ halt => halt ≠ some .tooDeep) env opened
        (fun path source => readWithin env levels (path :: opened) source) opened
        (fun path source => readWithin env (levels' + levels) (path :: opened) source) := by
      intro s directive hdeep
      refine addImport_congr (fun _ _ => Iff.rfl) fun path source target notOpen fetch => ?_
      refine ih (Nat.le_add_left _ _) fun hnested => hdeep ?_
      rw [addImport_of_notMem env opened _ s target notOpen, fetch]
      simp only [takeOver, hnested]
    have hrun := run_congr (fun y z halt hz => ⟨by simp, hz⟩) himport h
    exact congrArg (tolerate env) hrun

/-! ### Fewer open documents -/

theorem calm_of_tolerate {r : Reading} (h : (tolerate env r).Calm) : r.Calm := by
  by_cases hr : ∃ refusal, r.halt = some (.refused refusal)
  · obtain ⟨refusal, hr⟩ := hr
    obtain ⟨hhalt, hcalm⟩ := h
    unfold tolerate at hhalt hcalm
    simp only [hr] at hhalt hcalm
    split_ifs at hhalt hcalm with hstrict
    · cases hr.symm.trans hhalt
    · rw [Yield.firstStop?_append, Option.or_eq_none_iff] at hcalm
      cases hcalm.2
  · have hsame : tolerate env r = r := by
      unfold tolerate
      split
      · rename_i refusal hrefused
        exact absurd ⟨refusal, hrefused⟩ hr
      · rfl
    rwa [hsame] at h

theorem calm_readWithin {levels : Nat} {source : Text}
    (h : (course env opened (fun path source => readWithin env levels (path :: opened) source)
      .initial source).Calm) : (readWithin env (levels + 1) opened source).Calm := by
  have hrun : (run env opened (fun path source => readWithin env levels (path :: opened) source) 0
      .initial source).Calm := h
  rw [readWithin, tolerate]
  simp only [hrun.1]
  exact hrun

theorem Leads.calm {titles titles' : List Text} {t : Text} {y : Yield}
    (h : Leads env opened nested titles t titles' y) (hy : y.firstStop? = none) :
    (course env opened nested ⟨.seeking [], titles⟩ t).Calm := by
  rw [h.course_eq]
  exact ⟨rfl, hy⟩

theorem calm_append (y z : Yield) (halt : Option Halt) (h : Calm (y ++ z) halt) :
    Calm y none ∧ Calm z halt := by
  obtain ⟨hhalt, hcalm⟩ := h
  rw [Yield.firstStop?_append, Option.or_eq_none_iff] at hcalm
  exact ⟨⟨rfl, hcalm.1⟩, hhalt, hcalm.2⟩

theorem exists_of_calm_import {s : ReaderState} {directive : Text}
    (h : Calm (addImport env opened nested s directive).yield
      (addImport env opened nested s directive).halt) :
    ∃ path source, Import.target env.root directive = .ok path ∧ path ∉ opened ∧
      env.library.fetch path = .ok source ∧ (nested path source).Calm ∧
      addImport env opened nested s directive =
        ⟨s.seek, 0, asked env path ++ (nested path source).yield.imported s.depth, none⟩ := by
  obtain ⟨o, ho, hcase⟩ := addImport_cases env opened nested s directive
  rw [ho] at h
  cases hcase with
  | read path source target notOpen fetch halt =>
    obtain ⟨-, hcalm⟩ := h
    rw [Yield.firstStop?_append, firstStop?_imported, Option.or_eq_none_iff] at hcalm
    exact ⟨path, source, target, notOpen, fetch, ⟨halt, hcalm.2⟩, ho⟩
  | noTarget | cycle | unreadable | halted => cases h.1

theorem addImport_of_calm {s : ReaderState} {directive : Text} (hsub : opened' ⊆ opened)
    (hnested : ∀ path source, (nested path source).Calm →
      nested' path source = nested path source)
    (h : Calm (addImport env opened nested s directive).yield
      (addImport env opened nested s directive).halt) :
    addImport env opened' nested' s directive = addImport env opened nested s directive := by
  obtain ⟨path, source, target, notOpen, fetch, hcalm, -⟩ := exists_of_calm_import h
  refine addImport_congr (fun path' target' => ?_) fun path' source' target' _ fetch' => ?_
  · obtain rfl : path = path' := Except.ok.inj (target.symm.trans target')
    exact ⟨fun hmem => hsub hmem, fun hmem => absurd hmem notOpen⟩
  · obtain rfl : path = path' := Except.ok.inj (target.symm.trans target')
    obtain rfl : source = source' := Except.ok.inj (fetch.symm.trans fetch')
    exact hnested path source hcalm

/-- **A reading in which nothing is refused is the same with fewer documents open around it**, and
with any deeper nesting. -/
theorem readWithin_of_calm {levels levels' : Nat} (hle : levels ≤ levels') :
    ∀ {opened opened' : List Text} {source : Text}, opened' ⊆ opened →
      (readWithin env levels opened source).Calm →
      readWithin env levels' opened' source = readWithin env levels opened source := by
  induction levels generalizing levels' with
  | zero =>
    rintro opened opened' source - ⟨⟨⟩, -⟩
  | succ levels ih =>
    intro opened opened' source hsub h
    obtain ⟨levels', rfl⟩ := Nat.exists_eq_add_of_le' hle
    have himport : AgreeWhere Calm env opened
        (fun path source => readWithin env levels (path :: opened) source) opened'
        (fun path source => readWithin env (levels' + levels) (path :: opened') source) :=
      fun s directive hcalm => addImport_of_calm hsub
        (fun path source hnested =>
          ih (Nat.le_add_left _ _) (List.cons_subset_cons path hsub) hnested) hcalm
    have hrun := run_congr calm_append himport (calm_of_tolerate h)
    exact congrArg (tolerate env) hrun

end Reader

end Vitae
