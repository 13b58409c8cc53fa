import RegexMachine.Proofs.Effects
import RegexMachine.Proofs.FilterCover
import RegexMachine.Proofs.Runs

/-!
# The front of a program

The filter that is read off the front of a program only turns away starts at which an attempt
fails at once. `Leading` is the invariant of a thread on its way through that front: it has not
moved, it has no frames, and its filter is that of the instructions ahead. A step keeps it or
ends the attempt without a match (`Leading.step`), and so does the whole attempt
(`Program.attempt_rejected`).
-/

namespace RegexMachine

variable {α : Type} [CodeUnit α]

/-- A start whose unit, if there is one, is not accepted by a filter. -/
def Filter.Rejects (filter : Filter) (subject : Array α) (start : Nat) : Prop :=
  ∀ unit, unitAt? subject start = some unit → filter.accepts unit = false

/-- A test that a filter covers is not passed where the filter rejects. -/
theorem Filter.Rejects.unitPasses_eq_false {filter : Filter} {subject : Array α} {start : Nat}
    {test : UInt16 → Bool} (rejects : filter.Rejects subject start)
    (covers : ∀ unit, test unit = true → filter.accepts unit = true) :
    Thread.unitPasses subject start test = false := by
  rw [Thread.unitPasses]
  cases found : unitAt? subject start with
  | none => rfl
  | some unit =>
    rw [← Bool.not_eq_true]
    intro passed
    have accepted := covers unit passed
    rw [rejects unit found] at accepted
    contradiction

/-- A literal whose first unit a filter covers does not stand where the filter rejects. -/
theorem Filter.Rejects.literalAt_eq_false {filter : Filter} {subject : Array α} {start : Nat}
    {ignoreCase : Bool} {target : UInt16} {later : List UInt16}
    (rejects : filter.Rejects subject start)
    (covers : ∀ unit, sameUnit ignoreCase unit target = true → filter.accepts unit = true) :
    literalAt ignoreCase subject start (target :: later) = false := by
  rw [literalAt]
  cases found : unitAt? subject start with
  | none => rfl
  | some unit =>
    have differs : sameUnit ignoreCase unit target = false := by
      rw [← Bool.not_eq_true]
      intro same
      have accepted := covers unit same
      rw [rejects unit found] at accepted
      contradiction
    simp only [differs, Bool.false_and]

namespace Thread

variable {program : Program} {subject : Array α} {limit : StackLimit} {start : Nat}
  {thread : Thread}
  {instruction : Instruction UInt32}

/-- The instruction that a filter is read off fails where the filter rejects. -/
theorem execute_rejected {filter : Filter}
    (derived : instruction.unitFilter? program.ignoreCase = some filter)
    (within : thread.position ≤ subject.size)
    (rejects : filter.Rejects subject thread.position) :
    thread.execute program subject limit instruction = .ok (.fail thread.memory) := by
  cases instruction with
  | checkByte only =>
    obtain rfl := Option.some.inj derived
    have covers : ∀ unit, (unit == only.toUInt16) = true →
        (Filter.one only.toUInt16).accepts unit = true := fun _ same => same
    simp only [execute, checkUnit, rejects.unitPasses_eq_false covers]
    rfl
  | checkUnit only =>
    obtain rfl := Option.some.inj derived
    have covers : ∀ unit, (unit == only) = true →
        (Filter.one only).accepts unit = true := fun _ same => same
    simp only [execute, checkUnit, rejects.unitPasses_eq_false covers]
    rfl
  | checkAny units =>
    have covers : ∀ unit, units.contains unit = true → filter.accepts unit = true :=
      fun unit found => Filter.accepts_of_ofUnits? derived (List.contains_iff_mem.mp found)
    simp only [execute, checkUnit, rejects.unitPasses_eq_false covers]
    rfl
  | checkRange ranges count inverted =>
    cases inverted with
    | true => contradiction
    | false =>
      have covers : ∀ unit, (UnitRange.anyHolds ranges unit != false) = true →
          filter.accepts unit = true := by
        intro unit found
        rw [Bool.bne_false] at found
        obtain ⟨range, member, inside⟩ := UnitRange.exists_of_anyHolds found
        exact Filter.accepts_of_ofRanges? derived member inside
      simp only [execute, checkUnit, rejects.unitPasses_eq_false covers]
      rfl
  | checkLiteral units =>
    cases units with
    | nil => contradiction
    | cons target later =>
      have covers : ∀ unit, sameUnit program.ignoreCase unit target = true →
          filter.accepts unit = true := by
        intro unit same
        simp only [Instruction.unitFilter?] at derived
        split at derived
        · rename_i ignoring
          rw [sameUnit, if_pos ignoring, LetterCase.isVariant, Bool.or_eq_true, Bool.or_eq_true,
            beq_iff_eq, beq_iff_eq, beq_iff_eq] at same
          refine Filter.accepts_of_ofUnits? derived ?_
          rcases same with (rfl | rfl) | rfl <;> simp
        · rename_i exactly
          obtain rfl := Option.some.inj derived
          rw [sameUnit, if_neg exactly] at same
          exact same
      simp only [execute, literal_eq_ok within, rejects.literalAt_eq_false covers]
      rfl
  | _ => contradiction

/-- An instruction that is passed over leaves the position and the stack, and goes on or
fails. -/
theorem execute_passedOver (fetched : program.fetch thread.pc = some instruction)
    (passed : instruction.isPassedOver = true)
    (sized : thread.memory.state.size = program.frameSize)
    (unitsFit : subject.size ≤ maxSlot) (within : thread.position ≤ subject.size) :
    ∃ memory,
      (thread.execute program subject limit instruction =
          .ok (.proceed ⟨thread.pc + instruction.length, thread.position, memory⟩) ∨
        thread.execute program subject limit instruction = .ok (.fail memory)) ∧
      memory.stack = thread.memory.stack ∧
      memory.state.size = thread.memory.state.size := by
  have fits := Nat.le_trans within unitsFit
  have scratch : ∀ slot, instruction.slot? = some slot →
      program.slotCount + slot.toNat < thread.memory.state.size := by
    intro slot uses
    rw [sized]
    exact Program.scratch_lt_frameSize fetched uses
  have groupCell : ∀ group, group < program.captures →
      2 * group + 1 < thread.memory.state.size := by
    intro group inGroups
    rw [sized]
    exact Program.groupEnd_lt_frameSize inGroups
  cases instruction with
  | startCapture group =>
    have inState := groupCell group.toNat (Program.group_lt_captures (.inl fetched))
    exact ⟨_, .inl (openGroup_eq_ok fits inState), rfl, by simp⟩
  | endCapture group =>
    have inState := groupCell group.toNat (Program.group_lt_captures (.inr fetched))
    exact ⟨_, .inl (save_eq_ok fits inState), rfl, by simp⟩
  | clearCaptures first stop =>
    obtain ⟨ordered, inState⟩ := Program.cleared_le_frameSize fetched
    rw [← sized] at inState
    simp only [execute, Memory.clear_eq_ok ordered inState]
    exact ⟨_, .inl rfl, rfl, Memory.size_unsetCells _ _ _⟩
  | counterZero slot =>
    exact ⟨_, .inl (save_eq_ok (Nat.zero_le _) (scratch slot rfl)), rfl, by simp⟩
  | storePosition slot =>
    exact ⟨_, .inl (save_eq_ok fits (scratch slot rfl)), rfl, by simp⟩
  | assertion anchor =>
    obtain ⟨held, holds⟩ := anchor.exists_holds within
    refine ⟨thread.memory, ?_, rfl, rfl⟩
    simp only [execute, test_eq_ok holds]
    cases held with
    | true => exact .inl rfl
    | false => exact .inr rfl
  | _ => contradiction

end Thread

/-- A thread on its way through the front of a program, with these instructions ahead: it has
not moved from its start, it has no frames, and the filter is that of the instructions. -/
structure Leading (program : Program) (filter : Filter) (start : Nat)
    (ahead : List (Instruction UInt32)) (thread : Thread) : Prop where
  place : ∃ before, program.entries = Located.layout 0 (before ++ ahead) ∧
    thread.pc = Instruction.totalLength before
  derived : Instruction.leadingFilter? program.ignoreCase ahead = some filter
  unmoved : thread.position = start
  sized : thread.memory.state.size = program.frameSize
  frameless : thread.memory.stack = #[]

namespace Leading

variable {program : Program} {subject : Array α} {filter : Filter} {limit : StackLimit}
  {start : Nat}
  {ahead : List (Instruction UInt32)} {thread : Thread}

/-- The first instruction ahead stands at the offset of the thread. -/
theorem fetch {instruction : Instruction UInt32} {later : List (Instruction UInt32)}
    (leading : Leading program filter start (instruction :: later) thread) :
    program.fetch thread.pc = some instruction := by
  obtain ⟨before, entries, place⟩ := leading.place
  rw [Program.fetch_eq_some_iff, entries]
  exact Located.mem_layout_iff.mpr ⟨before, later, rfl, by rw [place, Nat.zero_add]⟩

/-- A step where the filter rejects goes on to the next instruction ahead, or ends the attempt
without a match. -/
theorem step (leading : Leading program filter start ahead thread)
    (rejects : filter.Rejects subject start) (unitsFit : subject.size ≤ maxSlot)
    (within : start ≤ subject.size) :
    (∃ instruction later next, ahead = instruction :: later ∧
      thread.step program subject limit = .running next ∧
      Leading program filter start later next) ∨
    ∃ after, thread.step program subject limit = .ended .unmatched after ∧
      after.stack = #[] := by
  cases ahead with
  | nil => exact absurd leading.derived (by simp [Instruction.leadingFilter?])
  | cons instruction later =>
    have fetched := leading.fetch
    have derived := leading.derived
    have unmoved := leading.unmoved
    rw [← unmoved] at within
    rw [Instruction.leadingFilter?] at derived
    rw [Thread.step_of_fetch fetched]
    split at derived
    · rename_i passed
      obtain ⟨memory, goesOn | fails, stack, sized⟩ :=
        Thread.execute_passedOver fetched passed leading.sized unitsFit within
      · left
        refine ⟨instruction, later,
          ⟨thread.pc + instruction.length, thread.position, memory⟩, rfl, ?_, ?_, derived,
          unmoved, sized.trans leading.sized, stack.trans leading.frameless⟩
        · rw [goesOn]
          rfl
        · obtain ⟨before, entries, place⟩ := leading.place
          refine ⟨before ++ [instruction], ?_, ?_⟩
          · rw [entries, List.append_assoc, List.singleton_append]
          · simp [place]
      · right
        have frameless := stack.trans leading.frameless
        exact ⟨memory, by rw [fails, Step.ofEffect, Step.ofFailure_nil frameless], frameless⟩
    · right
      rw [← unmoved] at rejects
      rw [Thread.execute_rejected derived within rejects, Step.ofEffect,
        Step.ofFailure_nil leading.frameless]
      exact ⟨_, rfl, leading.frameless⟩

/-- A run where the filter rejects ends without a match after at most as many steps as there
are instructions ahead. -/
theorem run (leading : Leading program filter start ahead thread)
    (rejects : filter.Rejects subject start) (unitsFit : subject.size ≤ maxSlot)
    (within : start ≤ subject.size) :
    ∃ after, thread.run program subject limit ahead.length = some (.unmatched, after) ∧
      after.stack = #[] := by
  induction ahead generalizing thread with
  | nil => exact absurd leading.derived (by simp [Instruction.leadingFilter?])
  | cons instruction later inductionHypothesis =>
    rw [List.length_cons, Thread.run_succ]
    rcases leading.step rejects unitsFit within with
      ⟨_, _, next, split, stepped, still⟩ | ⟨after, stepped, frameless⟩
    · obtain ⟨_, rfl⟩ := List.cons.inj split
      rw [stepped]
      exact inductionHypothesis still
    · rw [stepped]
      exact ⟨after, rfl, frameless⟩

/-- Steps where the filter rejects stay in the front of the program. -/
theorem steps (leading : Leading program filter start ahead thread)
    (rejects : filter.Rejects subject start) (unitsFit : subject.size ≤ maxSlot)
    (within : start ≤ subject.size) {other : Thread}
    (steps : Thread.Steps program subject limit thread other) :
    ∃ later, Leading program filter start later other := by
  induction steps with
  | refl => exact ⟨ahead, leading⟩
  | step prior continues inductionHypothesis =>
    obtain ⟨later, still⟩ := inductionHypothesis
    rcases still.step rejects unitsFit within with
      ⟨_, rest, next, _, stepped, further⟩ | ⟨after, stepped, _⟩
    · obtain rfl := Step.running.inj (stepped.symm.trans continues)
      exact ⟨rest, further⟩
    · rw [stepped] at continues
      contradiction

/-- The thread that an attempt begins with has the whole program ahead. -/
theorem initial (derived : program.leadingFilter? = some filter) {memory : Memory}
    (begins : Thread.initial program start memory = .ok thread) :
    Leading program filter start (program.entries.map Located.instruction) thread := by
  obtain ⟨instructions, _, entries⟩ := program.exists_wellFormed
  obtain ⟨_, _, rfl⟩ := Thread.eq_of_initial begins
  refine ⟨⟨[], ?_, rfl⟩, derived, rfl, by simp, rfl⟩
  rw [entries, Located.map_instruction_layout, List.nil_append]

end Leading

namespace Program

variable {program : Program} {subject : Array α} {filter : Filter}
  {limit : StackLimit} {budget start : Nat}

/-- An attempt where the leading filter rejects ends without a match. It takes no more steps
than the program has instructions, and pushes no frame. -/
theorem attempt_rejected (fits : program.frameFits = true)
    (unitsFit : subject.size ≤ maxSlot) (within : start ≤ subject.size)
    (derived : program.leadingFilter? = some filter) (rejects : filter.Rejects subject start)
    (enough : program.entries.length ≤ budget) (memory : Memory) :
    ∃ after, attempt program subject limit budget start memory = some (.unmatched, after) ∧
      after.stack = #[] := by
  have begins := Thread.initial_eq_ok fits (Nat.le_trans within unitsFit) memory
  obtain ⟨after, ends, frameless⟩ := (Leading.initial derived begins).run rejects unitsFit within
  rw [List.length_map] at ends
  rw [attempt_of_initial begins]
  exact ⟨after, Thread.run_of_le ends enough, frameless⟩

/-- The threads of an attempt where the leading filter rejects have no frames. -/
theorem frameless_of_reachable (unitsFit : subject.size ≤ maxSlot)
    (within : start ≤ subject.size) (derived : program.leadingFilter? = some filter)
    (rejects : filter.Rejects subject start) {thread : Thread}
    (reachable : Thread.Reachable program subject limit start thread) :
    thread.memory.stack = #[] := by
  obtain ⟨memory, first, begins, steps⟩ := reachable
  obtain ⟨_, still⟩ := (Leading.initial derived begins).steps rejects unitsFit within steps
  exact still.frameless

end Program

end RegexMachine
