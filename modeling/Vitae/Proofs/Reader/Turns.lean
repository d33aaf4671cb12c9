import Mathlib.Logic.Relation
import Vitae.Proofs.Reader.Machine
import Vitae.Proofs.Reader.Point

/-!
# The run of the machine

At every turn of its loops the machine is in order (`Machine.InOrder`): what it remembers does not
contradict itself, and the cursor stands before the end of the document while characters are taken
and behind it afterwards. `Machine.turn_cases` lists what the turns of such a machine can do. None is
stuck, all lead to a machine that is in order, and each that takes a character moves the cursor on,
also where it passes over a block of prose (`Machine.inOrder_turn`).

So fewer characters are left at each turn, and the end of the document completes two headers at most:
the run comes to an end, with what the reader makes of the document (`Machine.ends_characters`). On
the way the machine comes to the points of the reader (`Machine.passes_iff_reaches`), so what it
remembers is the reader's own state, register by register. `Machine.run_in_order` puts this together.
-/

namespace Vitae

open Text

namespace Cursor

variable {cursor : Cursor} {c : Char} {rest : Text}

theorem remaining_advance (h : -1 ≤ cursor.position) (n : Nat) :
    (cursor.advance n).remaining = cursor.remaining.drop n := by
  have hplace : (cursor.position + n + 1).toNat = (cursor.position + 1).toNat + n := by omega
  rw [remaining, remaining, advance, List.drop_drop, hplace]

theorem current?_advance (h : -1 ≤ cursor.position) :
    (cursor.advance 1).current? = cursor.remaining.head? := by
  have hplace : 0 ≤ cursor.position + 1 := by omega
  rw [current?, at?, advance, if_pos hplace, remaining, List.head?_drop]

theorem advance_advance (cursor : Cursor) (a b : Int) :
    (cursor.advance a).advance b = cursor.advance (a + b) := by
  simp only [advance, Int.add_assoc]

end Cursor

namespace Reader

variable {env : Settings} {opened : List Text} {nested : Text → Text → Reading} {s : ReaderState}
  {c : Char} {rest : Text}

theorem used_of_halt {h : Halt} (halt : (step env opened nested s c rest).halt = some h) :
    (step env opened nested s c rest).used = 0 := by
  obtain ⟨phase, titles⟩ := s
  cases phase with
  | seeking word => cases halt
  | filling header buffer =>
    unfold step at halt ⊢
    dsimp only at halt ⊢
    split_ifs at halt ⊢
    · obtain rfl := halt_complete halt
      exact used_addImport env opened nested _ buffer
    · cases halt

variable (env opened nested s)

theorem used_finish : (finish env opened nested s).used = 0 := by
  obtain ⟨phase, titles⟩ := s
  cases phase with
  | seeking word => rfl
  | filling header buffer =>
    cases header with
    | blockId => exact Nat.le_zero.1 (TextBlock.consumed_le [])
    | directive => exact used_addImport env opened nested _ buffer
    | title | labelId | labelContent id => rfl

theorem used_finish_finish :
    ((finish env opened nested s).andThen (finish env opened nested)).used = 0 := by
  unfold Outcome.andThen
  split
  · exact used_finish env opened nested s
  · dsimp only
    rw [used_finish, used_finish]

end Reader

namespace Machine

/-- The machine at a turn of its loops, in a document. -/
structure InOrder (m : Machine) (source : Text) : Prop extends m.Consistent where
  halt : m.halt = none
  reads : m.cursor.source = source
  /-- While characters are taken, the cursor is before the first one or at one of them. -/
  within : m.loop = .characters →
    -1 ≤ m.cursor.position ∧ m.cursor.position ≤ (source.length : Int) - 1
  /-- Afterwards it is behind the last one. -/
  behind : m.loop = .ending → m.cursor.position = source.length

variable (env : Settings) (opened : List Text) (nested : Text → Text → Reading)

/-- A machine comes to another in some turns. -/
def Comes : Machine → Machine → Prop :=
  Relation.ReflTransGen fun m m' => m.turn env opened nested = .on m'

/-- The run of a machine ends with the machine `last`. -/
def Ends (m last : Machine) : Prop :=
  ∃ m', Comes env opened nested m m' ∧ m'.turn env opened nested = .ended last

variable {env opened nested} {m m' m'' last : Machine} {source rest : Text} {c : Char}
  {o : Outcome}

theorem settled_of_none (halt : m.halt = none) : m.settled = .on m := by
  rw [settled, halt]

theorem settled_of_some {h : Halt} (halt : m.halt = some h) : m.settled = .ended m := by
  rw [settled, halt]

theorem eq_of_settled (h : m.settled = .on m') : m = m' ∧ m.halt = none := by
  unfold settled at h
  split at h
  · rename_i halt
    exact ⟨Turn.on.inj h, halt⟩
  · cases h

theorem halt_of_settled (h : m.settled = .ended m') : m'.halt ≠ none := by
  unfold settled at h
  split at h
  · cases h
  · rename_i halt
    rw [← Turn.ended.inj h, halt]
    exact Option.some_ne_none _

theorem settled_ne_stuck (m : Machine) : m.settled ≠ .stuck := by
  unfold settled
  split <;> exact Turn.noConfusion

/-! ### Outcomes of the reader -/

namespace Took

theorem andThen (htook : Took m m' o) (halt : m'.halt = none) {next : ReaderState → Outcome}
    (htook' : Took m' m'' (next m'.state)) : Took m m'' (o.andThen next) := by
  have hnone : o.halt = none := htook.halt.symm.trans halt
  rw [htook.state] at htook'
  simp only [Outcome.andThen, hnone]
  refine ⟨htook'.state, ?_, htook'.halt, ?_, htook'.loop.trans htook.loop⟩
  · rw [htook'.yield, htook.yield, Yield.append_assoc]
  · rw [htook'.cursor, htook.cursor, Cursor.advance_advance, Int.natCast_add]

theorem andThen_of_some (htook : Took m m' o) {h : Halt} (halt : m'.halt = some h)
    (next : ReaderState → Outcome) : Took m m' (o.andThen next) := by
  have hsome : o.halt = some h := htook.halt.symm.trans halt
  simp only [Outcome.andThen, hsome]
  exact htook

/-- The reading that an outcome leads to. -/
theorem reading (htook : Took m m' o) {position : Nat} (h : m.cursor.position + o.used = position) :
    m'.reading = ⟨m.yield ++ o.yield, o.state, position, o.halt⟩ := by
  have hposition : m'.cursor.position = position := by
    rw [htook.cursor]
    exact h
  rw [Machine.reading, htook.yield, htook.state, htook.halt, hposition, Int.toNat_natCast]

end Took

/-! ### A turn -/

namespace InOrder

variable (hm : m.InOrder source) (hloop : m.loop = .characters)

include hm hloop

theorem length_eq : (source.length : Int) = m.cursor.position + 1 + m.cursor.remaining.length := by
  have hwithin := hm.within hloop
  rw [Cursor.remaining, List.length_drop, hm.reads]
  omega

theorem current?_advanced : m.advanced.cursor.current? = m.cursor.remaining.head? :=
  Cursor.current?_advance (hm.within hloop).1

theorem remaining_advanced (n : Nat) :
    (m.advanced.cursor.advance n).remaining = m.cursor.remaining.tail.drop n := by
  have hwithin := hm.within hloop
  have hnext := Cursor.remaining_advance hwithin.1 1
  have hadvanced : -1 ≤ m.advanced.cursor.position := by
    simp only [advanced, Cursor.advance]
    omega
  rw [Cursor.remaining_advance hadvanced, ← List.drop_one, ← hnext]
  rfl

end InOrder

variable (env opened nested)

section

variable (hloop : m.loop = .characters) (hcurrent : m.advanced.cursor.current? = some c)

include hloop hcurrent

theorem turn_between (hheader : m.header = none) :
    m.turn env opened nested = .on (m.advanced.collect c) := by
  have hopen : m.advanced.header = none := hheader
  rw [turn, hloop]
  simp only [hcurrent, hopen]

theorem turn_inside {place : Place} {stop : Char} (hheader : m.header = some place)
    (hstop : place.stop? = some stop) :
    m.turn env opened nested = if c = stop then (m.advanced.complete env opened nested place).settled
      else .on (m.advanced.fill c) := by
  have hopen : m.advanced.header = some place := hheader
  rw [turn, hloop]
  simp only [hcurrent, hopen, hstop]

end

/-- **A turn that takes a character is a step of the reader.** -/
theorem turn_character (hm : m.InOrder source) (hloop : m.loop = .characters)
    (hcons : m.cursor.remaining = c :: rest) :
    ∃ m', m.turn env opened nested = m'.settled ∧ m'.Consistent ∧
      Took m.advanced m' (Reader.step env opened nested m.state c rest) := by
  have hcurrent := hm.current?_advanced hloop
  rw [hcons, List.head?_cons] at hcurrent
  have hrest := hm.remaining_advanced hloop 0
  rw [hcons, List.tail_cons, Int.natCast_zero, Cursor.advance_zero, List.drop_zero] at hrest
  have hadvanced : m.advanced.Consistent := ⟨hm.stop, hm.buffer, hm.word, hm.solid, hm.unspelled⟩
  have hstate : m.advanced.state = m.state := rfl
  cases hheader : m.header with
  | none =>
    have hstep : Reader.step env opened nested m.state c rest =
        .moved (Reader.collect m.state m.word c) := by
      rw [state_seeking hheader rfl]
      rfl
    have htook := took_collect hadvanced hheader hm.halt c
    have hturn := turn_between env opened nested hloop hcurrent hheader
    rw [← settled_of_none htook.halt] at hturn
    exact ⟨m.advanced.collect c, hturn, consistent_collect hadvanced hheader c, hstep ▸ htook⟩
  | some place =>
    obtain ⟨header, hplace, hstop⟩ := hadvanced.exists_header hheader
    have hturn := turn_inside env opened nested hloop hcurrent hheader hstop
    have hphase : m.state.phase = .filling header m.buffer := by
      rw [state_filling hheader hplace rfl]
    by_cases hc : c = header.stop
    · have hstep : Reader.step env opened nested m.state c rest =
          Reader.complete env opened nested m.state header m.buffer rest := by
        simp only [Reader.step, hphase, if_pos hc]
      have htook := took_complete env opened nested hadvanced hm.halt hheader hplace
      rw [hrest, hstate] at htook
      rw [if_pos hc] at hturn
      exact ⟨m.advanced.complete env opened nested place, hturn,
        consistent_complete env opened nested hadvanced hm.halt hheader, hstep ▸ htook⟩
    · have hstep : Reader.step env opened nested m.state c rest =
          .moved ⟨.filling header (m.buffer ++ [c]), m.titles⟩ := by
        simp only [Reader.step, hphase, if_neg hc]
        rfl
      have htook := took_fill (m := m.advanced) hheader hm.halt hplace c
      rw [if_neg hc, ← settled_of_none htook.halt] at hturn
      exact ⟨m.advanced.fill c, hturn,
        consistent_fill hadvanced (hheader ▸ Option.some_ne_none _) c, hstep ▸ htook⟩

/-- Behind the last character the loops are changed. -/
theorem turn_of_remaining_nil (hm : m.InOrder source) (hloop : m.loop = .characters)
    (hnil : m.cursor.remaining = []) :
    m.turn env opened nested = .on { m.advanced with loop := .ending } := by
  have hcurrent := hm.current?_advanced hloop
  rw [hnil, List.head?_nil] at hcurrent
  rw [turn, hloop]
  simp only [hcurrent]

/-- **A turn at the end of a document finishes what the reader finishes.** -/
theorem turn_ending (hm : m.InOrder source) (hloop : m.loop = .ending) (hheader : m.header ≠ none) :
    ∃ m', m.turn env opened nested = m'.settled ∧ m'.Consistent ∧
      Took m m' (Reader.finish env opened nested m.state) ∧
      (m'.halt = none → m'.header = m.header.bind Place.next?) := by
  obtain ⟨place, hopen⟩ := Option.ne_none_iff_exists'.1 hheader
  obtain ⟨header, hplace, -⟩ := hm.exists_header hopen
  have hnil : m.cursor.remaining = [] := by
    refine List.drop_eq_nil_of_le ?_
    rw [hm.behind hloop, hm.reads]
    omega
  have hfinish : Reader.finish env opened nested m.state =
      Reader.complete env opened nested m.state header m.buffer m.cursor.remaining := by
    rw [hnil, state_filling hopen hplace rfl]
    rfl
  refine ⟨m.complete env opened nested place, ?_,
    consistent_complete env opened nested hm.toConsistent hm.halt hopen, ?_, fun halt => ?_⟩
  · rw [turn, hloop]
    simp only [hopen]
  · rw [hfinish]
    exact took_complete env opened nested hm.toConsistent hm.halt hopen hplace
  · obtain ⟨-, -, hcase⟩ := complete_keeps env opened nested hm.toConsistent hm.halt hopen
    rw [hopen]
    exact (hcase.resolve_right fun h => h.1 halt).2

theorem turn_of_header_none (hloop : m.loop = .ending) (hheader : m.header = none) :
    m.turn env opened nested = .ended m := by
  rw [turn, hloop]
  simp only [hheader]

/-- The turns of a machine that is in order. -/
inductive TurnCase (m : Machine) : Turn → Prop
  | character {c : Char} {rest : Text} {m' : Machine} (loop : m.loop = .characters)
    (remaining : m.cursor.remaining = c :: rest) (consistent : m'.Consistent)
    (took : Took m.advanced m' (Reader.step env opened nested m.state c rest)) :
    TurnCase m m'.settled
  | last (loop : m.loop = .characters) (remaining : m.cursor.remaining = []) :
    TurnCase m (.on { m.advanced with loop := .ending })
  | header {m' : Machine} (loop : m.loop = .ending) (header : m.header ≠ none)
    (consistent : m'.Consistent) (took : Took m m' (Reader.finish env opened nested m.state))
    (next : m'.halt = none → m'.header = m.header.bind Place.next?) : TurnCase m m'.settled
  | ended (loop : m.loop = .ending) (header : m.header = none) : TurnCase m (.ended m)

theorem turn_cases (hm : m.InOrder source) :
    ∃ t, m.turn env opened nested = t ∧ TurnCase env opened nested m t := by
  cases loop : m.loop with
  | characters =>
    cases remaining : m.cursor.remaining with
    | nil =>
      exact ⟨_, turn_of_remaining_nil env opened nested hm loop remaining, .last loop remaining⟩
    | cons c rest =>
      obtain ⟨m', hturn, consistent, took⟩ := turn_character env opened nested hm loop remaining
      exact ⟨_, hturn, .character loop remaining consistent took⟩
  | ending =>
    by_cases header : m.header = none
    · exact ⟨_, turn_of_header_none env opened nested loop header, .ended loop header⟩
    · obtain ⟨m', hturn, consistent, took, next⟩ := turn_ending env opened nested hm loop header
      exact ⟨_, hturn, .header loop header consistent took next⟩

/-! ### Every turn -/

theorem inOrder_start (source : Text) : (start source).InOrder source where
  toConsistent := consistent_of_nil (fun _ h => by cases h) rfl rfl
  halt := rfl
  reads := rfl
  within := fun _ => by
    simp only [start, Cursor.start]
    omega
  behind := fun h => by cases h

theorem inOrder_ending (hm : m.InOrder source) (hloop : m.loop = .characters)
    (hnil : m.cursor.remaining = []) : InOrder { m.advanced with loop := .ending } source where
  toConsistent := ⟨hm.stop, hm.buffer, hm.word, hm.solid, hm.unspelled⟩
  halt := hm.halt
  reads := hm.reads
  within := fun h => by cases h
  behind := fun _ => by
    rw [hm.length_eq hloop, hnil]
    exact (Int.add_zero _).symm

variable {env opened nested}

theorem inOrder_of_step (hm : m.InOrder source) (hloop : m.loop = .characters)
    (hcons : m.cursor.remaining = c :: rest) (hm' : m'.Consistent) (halt : m'.halt = none)
    (htook : Took m.advanced m' (Reader.step env opened nested m.state c rest)) :
    m'.InOrder source ∧ m.cursor.position < m'.cursor.position := by
  have hused := Reader.used_step_le env opened nested m.state c rest
  have hwithin := hm.within hloop
  have hlength := hm.length_eq hloop
  have hposition := congrArg Cursor.position htook.cursor
  rw [hcons, List.length_cons] at hlength
  simp only [advanced, Cursor.advance] at hposition
  refine ⟨⟨hm', halt, ?_, fun _ => ⟨by omega, by omega⟩, fun h => ?_⟩, by omega⟩
  · rw [htook.cursor]
    exact hm.reads
  · cases (htook.loop.trans hloop).symm.trans h

theorem inOrder_of_finish (hm : m.InOrder source) (hloop : m.loop = .ending)
    (hm' : m'.Consistent) (halt : m'.halt = none)
    (htook : Took m m' (Reader.finish env opened nested m.state)) : m'.InOrder source := by
  have hcursor : m'.cursor = m.cursor := by
    rw [htook.cursor, Reader.used_finish]
    exact Cursor.advance_zero m.cursor
  refine ⟨hm', halt, ?_, fun h => ?_, fun _ => ?_⟩
  · rw [hcursor, hm.reads]
  · cases (htook.loop.trans hloop).symm.trans h
  · rw [hcursor, hm.behind hloop]

variable (env opened nested)

/-- **Every turn of a machine that is in order leads to one that is in order**: it is not stuck, and
the cursor goes on as long as characters are taken. -/
theorem inOrder_turn (hm : m.InOrder source) :
    m.turn env opened nested ≠ .stuck ∧
      ∀ m', m.turn env opened nested = .on m' →
        m'.InOrder source ∧ (m.loop = .characters → m.cursor.position < m'.cursor.position) := by
  obtain ⟨t, hturn, hcase⟩ := turn_cases env opened nested hm
  rw [hturn]
  cases hcase with
  | @character c rest m₁ loop remaining consistent took =>
    refine ⟨settled_ne_stuck m₁, fun m' h => ?_⟩
    obtain ⟨rfl, halt⟩ := eq_of_settled h
    obtain ⟨horder, hless⟩ := inOrder_of_step hm loop remaining consistent halt took
    exact ⟨horder, fun _ => hless⟩
  | last loop remaining =>
    refine ⟨Turn.noConfusion, ?_⟩
    rintro _ ⟨⟩
    exact ⟨inOrder_ending hm loop remaining, fun _ => Int.lt_succ _⟩
  | @header m₁ loop header consistent took next =>
    refine ⟨settled_ne_stuck m₁, fun m' h => ?_⟩
    obtain ⟨rfl, halt⟩ := eq_of_settled h
    refine ⟨inOrder_of_finish hm loop consistent halt took, fun h => ?_⟩
    cases loop.symm.trans h
  | ended => exact ⟨Turn.noConfusion, fun _ => Turn.noConfusion⟩

theorem inOrder_of_comes (hm : m.InOrder source) (h : Comes env opened nested m m') :
    m'.InOrder source := by
  induction h with
  | refl => exact hm
  | tail _ hturn ih => exact ((inOrder_turn env opened nested ih).2 _ hturn).1

/-- At the end of the document a turn leads to the next header. -/
theorem header_of_turn (hm : m.InOrder source) (hloop : m.loop = .ending)
    (hturn : m.turn env opened nested = .on m') :
    m'.loop = .ending ∧ m'.header = m.header.bind Place.next? := by
  obtain ⟨t, rfl, hcase⟩ := turn_cases env opened nested hm
  rw [hturn] at hcase
  generalize hon : Turn.on m' = t at hcase
  cases hcase with
  | character loop | last loop => cases loop.symm.trans hloop
  | header loop header consistent took next =>
    obtain ⟨rfl, halt⟩ := eq_of_settled hon.symm
    exact ⟨took.loop.trans loop, next halt⟩
  | ended => cases hon

/-- A run that nothing has made halt is over where the end of the document leaves no header open. -/
theorem eq_of_ended (hm : m.InOrder source) (hended : m.turn env opened nested = .ended last)
    (halt : last.halt = none) : m = last ∧ m.loop = .ending ∧ m.header = none := by
  obtain ⟨t, rfl, hcase⟩ := turn_cases env opened nested hm
  rw [hended] at hcase
  generalize hend : Turn.ended last = t at hcase
  cases hcase with
  | character | header =>
    exact absurd halt (halt_of_settled hend.symm)
  | last => cases hend
  | ended loop header =>
    obtain rfl := Turn.ended.inj hend
    exact ⟨rfl, loop, header⟩

/-! ### Whole runs -/

variable {env opened nested}

theorem ends_of_ended (h : m.turn env opened nested = .ended last) :
    Ends env opened nested m last :=
  ⟨m, .refl, h⟩

theorem Comes.ends (hcomes : Comes env opened nested m m') (h : Ends env opened nested m' last) :
    Ends env opened nested m last := by
  obtain ⟨m₁, hcomes', hended⟩ := h
  exact ⟨m₁, hcomes.trans hcomes', hended⟩

theorem Ends.unique {last' : Machine} (h : Ends env opened nested m last)
    (h' : Ends env opened nested m last') : last = last' := by
  obtain ⟨m₁, hcomes, hended⟩ := h
  obtain ⟨m₂, hcomes', hended'⟩ := h'
  induction hcomes using Relation.ReflTransGen.head_induction_on with
  | refl =>
    rcases hcomes'.cases_head with rfl | ⟨m₃, hturn, -⟩
    · exact Turn.ended.inj (hended.symm.trans hended')
    · cases hended.symm.trans hturn
  | head hturn _ ih =>
    rcases hcomes'.cases_head with rfl | ⟨m₃, hturn', hcomes'⟩
    · cases hturn.symm.trans hended'
    · obtain rfl := Turn.on.inj (hturn.symm.trans hturn')
      exact ih hcomes'

theorem exists_finish (hm : m.InOrder source) (hloop : m.loop = .ending) :
    ∃ m', Took m m' (Reader.finish env opened nested m.state) ∧
      (m'.halt ≠ none ∧ Ends env opened nested m m' ∨
        m'.InOrder source ∧ Comes env opened nested m m' ∧ m'.loop = .ending ∧
          m'.header = m.header.bind Place.next?) := by
  by_cases hheader : m.header = none
  · have hfinish : Reader.finish env opened nested m.state = .moved m.state := by
      rw [state_seeking hheader rfl]
      rfl
    rw [hfinish, hheader]
    exact ⟨m, ⟨rfl, (Yield.append_empty _).symm, hm.halt, (Cursor.advance_zero _).symm, rfl⟩,
      .inr ⟨hm, .refl, hloop, hheader⟩⟩
  · obtain ⟨m₁, hturn, hconsistent, htook, hnext⟩ :=
      turn_ending env opened nested hm hloop hheader
    refine ⟨m₁, htook, ?_⟩
    cases halt : m₁.halt with
    | some h =>
      rw [settled_of_some halt] at hturn
      exact .inl ⟨Option.some_ne_none h, ends_of_ended hturn⟩
    | none =>
      rw [settled_of_none halt] at hturn
      exact .inr ⟨inOrder_of_finish hm hloop hconsistent halt htook, .single hturn,
        htook.loop.trans hloop, hnext halt⟩

variable (env opened nested)

/-- At the end of the document a run ends with what two turns finish. -/
theorem ends_ending (hm : m.InOrder source) (hloop : m.loop = .ending) :
    ∃ last, Ends env opened nested m last ∧ Took m last
      ((Reader.finish env opened nested m.state).andThen (Reader.finish env opened nested)) := by
  obtain ⟨m₁, htook, ⟨halt, hends⟩ | ⟨hm₁, hcomes, hloop₁, hheader₁⟩⟩ := exists_finish hm hloop
  · obtain ⟨h, hsome⟩ := Option.ne_none_iff_exists'.1 halt
    exact ⟨m₁, hends, htook.andThen_of_some hsome _⟩
  · obtain ⟨m₂, htook₂, ⟨-, hends⟩ | ⟨-, hcomes₂, hloop₂, hheader₂⟩⟩ := exists_finish hm₁ hloop₁
    · exact ⟨m₂, hcomes.ends hends, htook.andThen hm₁.halt htook₂⟩
    · have hnone : m₂.header = none := by
        rw [hheader₂, hheader₁, Place.next?_bind_next?]
      have hended := turn_of_header_none env opened nested hloop₂ hnone
      exact ⟨m₂, hcomes.ends (hcomes₂.ends (ends_of_ended hended)), htook.andThen hm₁.halt htook₂⟩

/-- **A run comes to an end**, and it ends with what the reader makes of the rest of the document. -/
theorem ends_characters {s : ReaderState} {t : Text} {p : Nat} (m : Machine) (hm : m.InOrder source)
    (hloop : m.loop = .characters) (hs : m.state = s) (ht : m.cursor.remaining = t)
    (hp : m.cursor.position + 1 = p) :
    ∃ last, Ends env opened nested m last ∧
      last.reading = (Reader.run env opened nested p s t).after m.yield := by
  fun_induction Reader.run env opened nested p s t generalizing m with
  | case1 p s o =>
    subst hs
    have hturn := turn_of_remaining_nil env opened nested hm hloop ht
    obtain ⟨last, hends, htook⟩ := ends_ending env opened nested (inOrder_ending hm hloop ht) rfl
    have hposition : m.cursor.position + 1 + o.used = p := by
      rw [Reader.used_finish_finish, hp]
      exact Int.add_zero _
    exact ⟨last, Comes.ends (.single hturn) hends, htook.reading hposition⟩
  | case2 p s c rest o h ho =>
    subst hs
    obtain ⟨m₁, hturn, -, htook⟩ := turn_character env opened nested hm hloop ht
    rw [settled_of_some (htook.halt.trans ho)] at hturn
    have hposition : m.cursor.position + 1 + o.used = p := by
      rw [Reader.used_of_halt ho, hp]
      exact Int.add_zero _
    exact ⟨m₁, ends_of_ended hturn, ho ▸ htook.reading hposition⟩
  | case3 p s c rest o ho r ih =>
    subst hs
    obtain ⟨m₁, hturn, hconsistent, htook⟩ := turn_character env opened nested hm hloop ht
    have halt : m₁.halt = none := htook.halt.trans ho
    rw [settled_of_none halt] at hturn
    obtain ⟨horder, -⟩ := inOrder_of_step hm hloop ht hconsistent halt htook
    have hposition : m₁.cursor.position + 1 = (p + 1 + o.used : Nat) := by
      rw [htook.cursor]
      change m.cursor.position + 1 + (o.used : Int) + 1 = _
      omega
    have hrest : m₁.cursor.remaining = rest.drop o.used := by
      rw [htook.cursor, hm.remaining_advanced hloop, ht]
      rfl
    obtain ⟨last, hends, hreading⟩ :=
      ih m₁ horder (htook.loop.trans hloop) htook.state hrest hposition
    refine ⟨last, Comes.ends (.single hturn) hends, ?_⟩
    rw [hreading, htook.yield, ← Reading.after_after]
    rfl

theorem exists_ends (source : Text) : ∃ last, Ends env opened nested (start source) last ∧
    last.reading = Reader.run env opened nested 0 .initial source := by
  obtain ⟨last, hends, hreading⟩ := ends_characters (p := 0) env opened nested (start source)
    (inOrder_start source) rfl rfl rfl rfl
  exact ⟨last, hends, hreading⟩

/-! ### The points of the reader -/

/-- In the document the machine comes to a turn that takes a character, or finds that none is left.
It has yielded `y`, its state is `s`, and the text `t` is to come. -/
def Passes (source : Text) (y : Yield) (s : ReaderState) (t : Text) : Prop :=
  ∃ m, Comes env opened nested (start source) m ∧ m.loop = .characters ∧ m.yield = y ∧
    m.state = s ∧ m.cursor.remaining = t

theorem reaches_of_turn {s : ReaderState} {t : Text} (hm : m.InOrder source)
    (hreaches : m.loop = .characters →
      Reader.Reaches env opened nested s t m.yield m.state m.cursor.remaining)
    (hturn : m.turn env opened nested = .on m') (hloop' : m'.loop = .characters) :
    Reader.Reaches env opened nested s t m'.yield m'.state m'.cursor.remaining := by
  obtain ⟨t, rfl, hcase⟩ := turn_cases env opened nested hm
  rw [hturn] at hcase
  generalize hon : Turn.on m' = t at hcase
  cases hcase with
  | @character c rest m₁ loop remaining consistent took =>
    obtain ⟨rfl, halt⟩ := eq_of_settled hon.symm
    have hpoint := hreaches loop
    rw [remaining] at hpoint
    rw [took.yield, took.state, took.cursor, hm.remaining_advanced loop, remaining]
    exact hpoint.snoc (took.halt.symm.trans halt)
  | last =>
    obtain rfl := Turn.on.inj hon
    cases hloop'
  | header loop header consistent took =>
    obtain ⟨rfl, -⟩ := eq_of_settled hon.symm
    cases (took.loop.trans loop).symm.trans hloop'
  | ended => cases hon

/-- **While characters are taken the machine comes to the points of the reader.** -/
theorem passes_iff_reaches {y : Yield} {s : ReaderState} {t : Text} :
    Passes env opened nested source y s t ↔
      Reader.Reaches env opened nested .initial source y s t := by
  constructor
  · rintro ⟨m, hcomes, hloop, rfl, rfl, rfl⟩
    induction hcomes with
    | refl => exact .here _ _
    | tail hcomes hturn ih =>
      have hm := inOrder_of_comes env opened nested (inOrder_start source) hcomes
      exact reaches_of_turn env opened nested hm ih hturn hloop
  · intro hreaches
    refine hreaches.invariant (I := Passes env opened nested source)
      ⟨start source, .refl, rfl, rfl, rfl, rfl⟩ ?_
    rintro z s' c rest - ⟨m, hcomes, hloop, rfl, rfl, hremaining⟩ halt
    have hm := inOrder_of_comes env opened nested (inOrder_start source) hcomes
    obtain ⟨m', hturn, -, htook⟩ := turn_character env opened nested hm hloop hremaining
    rw [settled_of_none (htook.halt.trans halt)] at hturn
    refine ⟨m', hcomes.tail hturn, htook.loop.trans hloop, htook.yield, htook.state, ?_⟩
    rw [htook.cursor, hm.remaining_advanced hloop, hremaining]
    rfl

/-- **The machine is in order at every turn, it goes on, and its run comes to an end**, whatever the
settings, the open documents and the readings of the documents that are imported.

1. At every turn the open header can be completed, there is no buffer without a header and no word
   with one, the word has not come to a keyword, and the cursor is where it may be. A turn that takes
   a character moves the cursor on, and two turns at the end of the document leave no header open.
2. While characters are taken the machine comes to the points of the reader, and to no others.
3. The run comes to an end.
4. It ends with what the reader makes of the document. If nothing has made it halt, the cursor is
   behind the last character, the buffer is empty, and the machine stands in a section or, if none is
   open, at the top. -/
theorem run_in_order (source : Text) :
    (∀ m, Comes env opened nested (start source) m →
      m.InOrder source ∧ m.word ∉ Reader.keywords ∧ m.turn env opened nested ≠ .stuck ∧
      ∀ m', m.turn env opened nested = .on m' →
        (m.loop = .characters → m.cursor.position < m'.cursor.position) ∧
        (m.loop = .ending → ∀ m'', m'.turn env opened nested = .on m'' → m''.header = none)) ∧
    (∀ y s t, Passes env opened nested source y s t ↔
      Reader.Reaches env opened nested .initial source y s t) ∧
    (∃ last, Ends env opened nested (start source) last) ∧
    ∀ last, Ends env opened nested (start source) last →
      last.reading = Reader.run env opened nested 0 .initial source ∧
      (last.halt = none → last.cursor.position = source.length ∧ last.buffer = [] ∧
        (last.place = .top ∨ last.place = .inSection) ∧ (last.place = .top ↔ last.titles = [])) := by
  have hstart := inOrder_start source
  obtain ⟨last, hends, hreading⟩ := exists_ends env opened nested source
  refine ⟨fun m hcomes => ?_, fun _ _ _ => passes_iff_reaches env opened nested, ⟨last, hends⟩,
    fun last' hends' => ?_⟩
  · have hm := inOrder_of_comes env opened nested hstart hcomes
    obtain ⟨hstuck, hnext⟩ := inOrder_turn env opened nested hm
    refine ⟨hm, fun hmem => hm.unspelled _ hmem List.prefix_rfl, hstuck, fun m' hturn => ?_⟩
    obtain ⟨hm', hless⟩ := hnext m' hturn
    refine ⟨hless, fun hloop m'' hturn' => ?_⟩
    obtain ⟨hloop', hheader'⟩ := header_of_turn env opened nested hm hloop hturn
    obtain ⟨-, hheader''⟩ := header_of_turn env opened nested hm' hloop' hturn'
    rw [hheader'', hheader', Place.next?_bind_next?]
  · obtain rfl := hends.unique hends'
    refine ⟨hreading, fun halt => ?_⟩
    obtain ⟨m, hcomes, hended⟩ := hends
    have hm := inOrder_of_comes env opened nested hstart hcomes
    obtain ⟨rfl, hloop, hheader⟩ := eq_of_ended env opened nested hm hended halt
    have hplace : m.place = if m.titles.isEmpty then .top else .inSection := by
      rw [place, hheader]
      rfl
    refine ⟨hm.behind hloop, hm.buffer hheader, ?_⟩
    rw [hplace]
    cases m.titles <;> simp

end Machine

end Vitae
