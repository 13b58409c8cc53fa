import RegexMachine.Proofs.Effects
import RegexMachine.Proofs.MemoryInvariant
import RegexMachine.Proofs.Runs

/-!
# Safety of attempts

A validated program can not break off an attempt, except by leaving a look-around at a depth
where the stack has no frame. `Misuses` says when an instruction does so, `Thread.execute_safe`
and `Thread.execute_misused` say what each instruction does to a sound thread, and
`Program.attempt_safe` draws the conclusion for every thread that an attempt reaches.
-/

namespace RegexMachine

variable {α : Type} [CodeUnit α]

namespace Effect

/-- An effect that leaves a sound thread or sound memory. -/
def Sound (program : Program) (units : Nat) (limit : StackLimit) (start : Nat) : Effect → Prop
  | .proceed thread => thread.Sound program units limit start
  | .fail memory => memory.Sound program units limit start
  | .accept memory => memory.Sound program units limit start

/-- A sound effect, or the end of the attempt because the stack can not grow. -/
def Safe (program : Program) (units : Nat) (limit : StackLimit) (start : Nat) :
    Except Stop Effect → Prop
  | .ok effect => effect.Sound program units limit start
  | .error (.error _) => True
  | .error (.fault _) => False

variable {program : Program} {units : Nat} {limit : StackLimit} {start : Nat} {memory : Memory}
  {next position : Nat}

/-- A thread that consumes units within the subject or fails is sound. -/
theorem sound_consumeIf {passed : Bool} {consumed : Nat}
    (fetched : ∃ instruction, program.fetch next = some instruction)
    (started : start ≤ position) (within : passed = true → position + consumed ≤ units)
    (sound : memory.Sound program units limit start) :
    (consumeIf passed next position consumed memory).Sound program units limit start := by
  cases passed with
  | true => exact ⟨fetched, Nat.le_trans started (Nat.le_add_right _ _), within rfl, sound⟩
  | false => exact sound

end Effect

/-- When an instruction leaves a look-around at a depth that is no depth of the stack: one that
is negative or whose cells can not be counted, and to go back to a position one that the stack
does not reach. -/
inductive Misuses (program : Program) (memory : Memory) : Instruction UInt32 → Prop where
  | success {slot target : UInt32} {depth : Int}
      (saved : memory.state[program.slotCount + slot.toNat]? = some depth)
      (wrong : depth < 0 ∨ cellLimit ≤ depth.toNat * program.frameSize ∨
        memory.depth program.frameSize ≤ depth.toNat) :
      Misuses program memory (.assertionSuccess slot target)
  | failure {slot : UInt32} {depth : Int}
      (saved : memory.state[program.slotCount + slot.toNat]? = some depth)
      (wrong : depth < 0 ∨ cellLimit ≤ depth.toNat * program.frameSize) :
      Misuses program memory (.assertionFailure slot)

namespace Thread

variable {program : Program} {subject : Array α} {limit : StackLimit} {start : Nat}
  {thread : Thread}
  {instruction : Instruction UInt32} {next : Nat}

/-- Checking one unit is safe. -/
theorem checkUnit_safe {test : UInt16 → Bool}
    (sound : thread.Sound program subject.size limit start)
    (fetched : ∃ instruction, program.fetch next = some instruction) :
    (checkUnit subject test next thread).Sound program subject.size limit start := by
  exact Effect.sound_consumeIf fetched sound.started lt_size_of_unitPasses sound.memory

/-- Consuming a literal is safe. -/
theorem literal_safe {ignoreCase : Bool} {units : List UInt16}
    (sound : thread.Sound program subject.size limit start)
    (fetched : ∃ instruction, program.fetch next = some instruction) :
    Effect.Safe program subject.size limit start
      (thread.literal ignoreCase subject units next) := by
  rw [literal_eq_ok sound.within]
  exact Effect.sound_consumeIf fetched sound.started
    (add_length_le_of_literalAt sound.within) sound.memory

/-- Testing an anchor is safe. -/
theorem test_safe {anchor : Anchor} (sound : thread.Sound program subject.size limit start)
    (fetched : ∃ instruction, program.fetch next = some instruction) :
    Effect.Safe program subject.size limit start (thread.test anchor subject next) := by
  obtain ⟨held, holds⟩ := anchor.exists_holds sound.within
  rw [test_eq_ok holds]
  exact Effect.sound_consumeIf fetched sound.started (fun _ => sound.within) sound.memory

/-- Saving a number in a cell that may hold it is safe. -/
theorem save_safe {units number cell : Nat} (sound : thread.Sound program units limit start)
    (fits : number ≤ maxSlot) (inState : cell < program.frameSize)
    (holds : CellSound program units start cell number)
    (fetched : ∃ instruction, program.fetch next = some instruction) :
    Effect.Safe program units limit start (thread.save number cell next) := by
  rw [← sound.memory.state.sized] at inState
  rw [save_eq_ok fits inState]
  exact ⟨fetched, sound.started, sound.within, sound.memory.set holds⟩

/-- Opening a group of the program is safe. -/
theorem openGroup_safe {units group : Nat} (sound : thread.Sound program units limit start)
    (unitsFit : units ≤ maxSlot) (inGroups : group < program.captures)
    (fetched : ∃ instruction, program.fetch next = some instruction) :
    Effect.Safe program units limit start (thread.openGroup group next) := by
  have inState : 2 * group + 1 < thread.memory.state.size := by
    rw [sound.memory.state.sized]
    exact Program.groupEnd_lt_frameSize inGroups
  rw [openGroup_eq_ok (Nat.le_trans sound.within unitsFit) inState]
  exact ⟨fetched, sound.started, sound.within,
    (sound.memory.set (.position unitsFit _ sound.started sound.within)).set (.unset _)⟩

/-- Requiring a change of position is safe. -/
theorem requireMoved_safe {units cell : Nat} (sound : thread.Sound program units limit start)
    (unitsFit : units ≤ maxSlot) (inState : cell < program.frameSize)
    (fetched : ∃ instruction, program.fetch next = some instruction) :
    Effect.Safe program units limit start (thread.requireMoved cell next) := by
  rw [← sound.memory.state.sized] at inState
  obtain ⟨saved, _, read⟩ := Memory.exists_read inState
  rw [requireMoved_eq_ok read (Nat.le_trans sound.within unitsFit)]
  exact Effect.sound_consumeIf fetched sound.started (fun _ => sound.within) sound.memory

/-- Counting in a scratch slot is safe: the count stays a number of a slot. -/
theorem count_safe {units cell max target : Nat}
    (sound : thread.Sound program units limit start) (behind : program.slotCount ≤ cell)
    (inState : cell < program.frameSize)
    (fetched : ∃ instruction, program.fetch next = some instruction)
    (targetFetched : ∃ instruction, program.fetch target = some instruction) :
    Effect.Safe program units limit start (thread.count cell max target next) := by
  rw [← sound.memory.state.sized] at inState
  obtain ⟨before, _, read⟩ := Memory.exists_read inState
  have atLeast := (sound.memory.state.sound _ _ read).atLeast
  rw [count_eq_ok read]
  refine ⟨?_, sound.started, sound.within, sound.memory.set (.number behind ?_ ?_)⟩
  · split
    · exact targetFetched
    · exact fetched
  · unfold unset at atLeast
    omega
  · exact Int.min_le_right _ _

/-- The text of a group lies within the subject. -/
theorem group?_safe {units : Nat} (sound : thread.memory.Sound program units limit start)
    (group : Nat) :
    ∃ text?, thread.memory.group? program.captures group = .ok text? ∧
      ∀ text, text? = some text → text.stop ≤ units := by
  by_cases absent : program.captures ≤ group
  · exact ⟨none, if_pos absent, fun text none => by contradiction⟩
  · have inGroups := Nat.lt_of_not_le absent
    have inState : 2 * group + 1 < thread.memory.state.size := by
      rw [sound.state.sized]
      exact Program.groupEnd_lt_frameSize inGroups
    obtain ⟨first, _, readFirst⟩ := Memory.exists_read (Nat.lt_of_succ_lt inState)
    obtain ⟨stop, _, readStop⟩ := Memory.exists_read inState
    rw [Memory.group?_eq_ok inGroups readFirst readStop]
    split
    · exact ⟨none, rfl, fun text none => by contradiction⟩
    · rename_i set
      refine ⟨_, rfl, ?_⟩
      intro text found
      obtain rfl := Option.some.inj found
      have isEnd := Program.groupEnd_lt_slotCount inGroups
      rcases (sound.state.sound _ _ readStop).inSubject isEnd with isUnset | ⟨_, atMost⟩
      · exact absurd (.inr (.inl isUnset)) set
      · simp only
        omega

/-- Consuming the text of a group again is safe. -/
theorem backReference_safe {group : Nat} {ignoreCase : Bool}
    (sound : thread.Sound program subject.size limit start)
    (fetched : ∃ instruction, program.fetch next = some instruction) :
    Effect.Safe program subject.size limit start
      (thread.backReference program.captures subject group ignoreCase next) := by
  obtain ⟨text?, found, inSubject⟩ := group?_safe sound.memory group
  cases text? with
  | none =>
    rw [backReference, found]
    exact ⟨fetched, sound.started, sound.within, sound.memory⟩
  | some text =>
    rw [backReference_eq_ok found sound.within (inSubject text rfl)]
    exact Effect.sound_consumeIf fetched sound.started (add_le_of_repeatsAt sound.within)
      sound.memory

/-- Reporting a match is safe. -/
theorem accept_safe {units : Nat} (sound : thread.Sound program units limit start)
    (unitsFit : units ≤ maxSlot) : Effect.Safe program units limit start thread.accept := by
  have inState : 1 < thread.memory.state.size := by
    rw [sound.memory.state.sized]
    exact program.one_lt_frameSize
  rw [accept_eq_ok (Nat.le_trans sound.within unitsFit) inState]
  exact sound.memory.set (.position unitsFit 1 sound.started sound.within)

/-- Pushing a frame is safe if a slot holds the offset to resume at. -/
theorem push_safe {units target : Nat} (sound : thread.Sound program units limit start)
    (unitsFit : units ≤ maxSlot) (targetFits : target ≤ maxSlot)
    (fetched : ∃ instruction, program.fetch next = some instruction)
    (targetFetched : ∃ instruction, program.fetch target = some instruction) :
    Effect.Safe program units limit start (Effect.withMemory next thread.position
      (thread.memory.push program.frameSize limit thread.position target)) := by
  cases room : thread.memory.refusal? program.frameSize limit with
  | none =>
    rw [Memory.push_eq_ok room program.frameSize_pos (Nat.le_trans sound.within unitsFit)
      targetFits]
    exact ⟨fetched, sound.started, sound.within,
      sound.memory.push unitsFit targetFits room sound.started sound.within targetFetched⟩
  | some error =>
    rw [Memory.push_eq_error room]
    exact trivial

/-- Leaving a look-around at a depth of the stack is safe, and nothing else goes on. -/
theorem leaveLookaround_safe {units cell target : Nat} {depth : Int}
    (sound : thread.Sound program units limit start)
    (saved : thread.memory.state[cell]? = some depth)
    (targetFetched : ∃ instruction, program.fetch target = some instruction)
    (proper : ¬ (depth < 0 ∨ cellLimit ≤ depth.toNat * program.frameSize ∨
      thread.memory.depth program.frameSize ≤ depth.toNat)) :
    Effect.Safe program units limit start
      (thread.leaveLookaround program.frameSize cell target) := by
  simp only [not_or, Int.not_lt, Nat.not_le] at proper
  obtain ⟨positive, countable, reached⟩ := proper
  obtain ⟨position, found, started, within⟩ := sound.memory.exists_framePosition reached
  rw [leaveLookaround, Memory.read_eq_ok_iff.mpr saved]
  simp only [Memory.frameStart, if_neg (Int.not_lt.mpr positive), if_pos countable, found]
  exact ⟨targetFetched, started, within, sound.memory.cut depth.toNat⟩

/-- Leaving a look-around at any other depth breaks the attempt off. -/
theorem leaveLookaround_misused {units cell target : Nat} {depth : Int}
    (sound : thread.Sound program units limit start)
    (saved : thread.memory.state[cell]? = some depth)
    (wrong : depth < 0 ∨ cellLimit ≤ depth.toNat * program.frameSize ∨
      thread.memory.depth program.frameSize ≤ depth.toNat) :
    thread.leaveLookaround program.frameSize cell target = .error (.fault .noSuchFrame) := by
  rw [leaveLookaround, Memory.read_eq_ok_iff.mpr saved]
  simp only [Memory.frameStart]
  by_cases negative : depth < 0
  · rw [if_pos negative]
  · rw [if_neg negative]
    by_cases countable : depth.toNat * program.frameSize < cellLimit
    · have beyond : thread.memory.depth program.frameSize ≤ depth.toNat := by
        rcases wrong with _ | _ | beyond
        · contradiction
        · omega
        · exact beyond
      rw [if_pos countable]
      simp only [sound.memory.framePosition_eq_error beyond]
    · rw [if_neg countable]

/-- Failing out of a look-around at a depth that can be counted is safe. -/
theorem failLookaround_safe {units cell : Nat} {depth : Int}
    (sound : thread.Sound program units limit start)
    (saved : thread.memory.state[cell]? = some depth)
    (proper : ¬ (depth < 0 ∨ cellLimit ≤ depth.toNat * program.frameSize)) :
    Effect.Safe program units limit start (thread.failLookaround program.frameSize cell) := by
  simp only [not_or, Int.not_lt, Nat.not_le] at proper
  obtain ⟨positive, countable⟩ := proper
  rw [failLookaround, Memory.read_eq_ok_iff.mpr saved]
  simp only [Memory.frameStart, if_neg (Int.not_lt.mpr positive), if_pos countable]
  exact sound.memory.cut depth.toNat

/-- Failing out of a look-around at any other depth breaks the attempt off. -/
theorem failLookaround_misused {cell : Nat} {depth : Int}
    (saved : thread.memory.state[cell]? = some depth)
    (wrong : depth < 0 ∨ cellLimit ≤ depth.toNat * program.frameSize) :
    thread.failLookaround program.frameSize cell = .error (.fault .noSuchFrame) := by
  rw [failLookaround, Memory.read_eq_ok_iff.mpr saved]
  simp only [Memory.frameStart]
  by_cases negative : depth < 0
  · rw [if_pos negative]
  · rw [if_neg negative, if_neg (by omega)]

/-- A slot holds the target of every choice in a program that is not longer than it can count. -/
theorem choiceTarget_le (short : program.bytes.length ≤ maxSlot + 1)
    (fetched : program.fetch thread.pc = some instruction) :
    ∀ target, instruction = .pushBacktrack target → target.toNat ≤ maxSlot := by
  rintro target rfl
  obtain ⟨following, found⟩ := Program.exists_fetch_target fetched rfl
  have inBytes := Program.lt_length_of_fetch found
  omega

/-- An instruction that leaves no look-around wrongly is safe for a sound thread, if a slot holds
its target where it is a choice. -/
theorem execute_safe (unitsFit : subject.size ≤ maxSlot) (limitFits : limit.frames ≤ maxSlot)
    (sound : thread.Sound program subject.size limit start)
    (fetched : program.fetch thread.pc = some instruction)
    (targetFits : ∀ target, instruction = .pushBacktrack target → target.toNat ≤ maxSlot)
    (proper : ¬ Misuses program thread.memory instruction) :
    Effect.Safe program subject.size limit start
      (thread.execute program subject limit instruction) := by
  have positionFits : thread.position ≤ maxSlot := Nat.le_trans sound.within unitsFit
  have here : ∀ cell, CellSound program subject.size start cell thread.position :=
    fun cell => .position unitsFit cell sound.started sound.within
  have next : instruction.fallsThrough = true →
      ∃ following, program.fetch (thread.pc + instruction.length) = some following :=
    Program.exists_fetch_next fetched
  have target : ∀ target, instruction.target? = some target →
      ∃ following, program.fetch target.toNat = some following :=
    fun target => Program.exists_fetch_target fetched
  have scratch : ∀ slot, instruction.slot? = some slot →
      program.slotCount + slot.toNat < program.frameSize :=
    fun slot => Program.scratch_lt_frameSize fetched
  have behind : ∀ slot, program.slotCount ≤ program.slotCount + slot :=
    fun slot => Nat.le_add_right _ slot
  cases instruction with
  | storeSp slot =>
    have depthFits := Nat.le_trans sound.memory.depth_le limitFits
    exact save_safe sound depthFits (scratch slot rfl)
      (.number (behind _) (by omega) (by omega)) (next rfl)
  | storePosition slot =>
    exact save_safe sound positionFits (scratch slot rfl) (here _) (next rfl)
  | positionTest slot =>
    exact requireMoved_safe sound unitsFit (scratch slot rfl) (next rfl)
  | assertionSuccess slot goal =>
    have inState := scratch slot rfl
    rw [← sound.memory.state.sized] at inState
    obtain ⟨depth, _, saved⟩ := Memory.exists_read inState
    exact leaveLookaround_safe sound saved (target goal rfl)
      fun wrong => proper (.success saved wrong)
  | assertionFailure slot =>
    have inState := scratch slot rfl
    rw [← sound.memory.state.sized] at inState
    obtain ⟨depth, _, saved⟩ := Memory.exists_read inState
    exact failLookaround_safe sound saved fun wrong => proper (.failure saved wrong)
  | assertion anchor => exact test_safe sound (next rfl)
  | startCapture group =>
    exact openGroup_safe sound unitsFit (Program.group_lt_captures (.inl fetched)) (next rfl)
  | endCapture group =>
    have inGroups := Program.group_lt_captures (.inr fetched)
    exact save_safe sound positionFits (Program.groupEnd_lt_frameSize inGroups) (here _)
      (next rfl)
  | clearCaptures first stop =>
    obtain ⟨ordered, inState⟩ := Program.cleared_le_frameSize fetched
    rw [← sound.memory.state.sized] at inState
    simp only [execute, Memory.clear_eq_ok ordered inState]
    exact ⟨next rfl, sound.started, sound.within, sound.memory.clear _ _⟩
  | counterZero slot =>
    exact save_safe sound (Nat.zero_le _) (scratch slot rfl)
      (.number (behind _) (by simp) (by simp)) (next rfl)
  | counterNext slot max goal =>
    exact count_safe sound (behind _) (scratch slot rfl) (next rfl) (target goal rfl)
  | pushBacktrack goal =>
    exact push_safe sound unitsFit (targetFits goal rfl) (next rfl) (target goal rfl)
  | backReference group ignoreCase => exact backReference_safe sound (next rfl)
  | checkByte | checkUnit | checkAny | checkRange => exact checkUnit_safe sound (next rfl)
  | checkLiteral units => exact literal_safe sound (next rfl)
  | jump goal => exact ⟨target goal rfl, sound.started, sound.within, sound.memory⟩
  | failure => exact sound.memory
  | success => exact accept_safe sound unitsFit

/-- An instruction that leaves a look-around wrongly breaks the attempt off. -/
theorem execute_misused {units : Nat} (sound : thread.Sound program units limit start)
    (misused : Misuses program thread.memory instruction) :
    thread.execute program subject limit instruction = .error (.fault .noSuchFrame) := by
  cases misused with
  | success saved wrong => exact leaveLookaround_misused sound saved wrong
  | failure saved wrong => exact failLookaround_misused saved wrong

end Thread

/-- A step after a safe result leads to a sound thread or ends without a fault. -/
theorem Step.ofEffect_safe {program : Program} {units : Nat} {limit : StackLimit} {start : Nat}
    {result : Except Stop Effect} (safe : Effect.Safe program units limit start result) :
    (∀ next, ofEffect program result = .running next → next.Sound program units limit start) ∧
      ∀ fault memory, ofEffect program result ≠ .ended (.fault fault) memory := by
  cases result with
  | error stop =>
    cases stop with
    | error reason => simp [ofEffect, Stop.outcome]
    | fault fault => exact safe.elim
  | ok effect =>
    cases effect with
    | proceed thread =>
      refine ⟨?_, by simp [ofEffect]⟩
      intro next same
      obtain rfl := Step.running.inj same
      exact safe
    | fail memory =>
      rw [ofEffect, ofFailure]
      split
      · rename_i present
        refine ⟨?_, by simp⟩
        intro next same
        obtain rfl := Step.running.inj same
        exact safe.resumed present
      · simp
    | accept memory => simp [ofEffect]

namespace Thread

variable {program : Program} {subject : Array α} {limit : StackLimit} {start : Nat}
  {thread : Thread}
  {instruction : Instruction UInt32}

/-- A step keeps a thread sound. -/
theorem step_sound (short : program.bytes.length ≤ maxSlot)
    (unitsFit : subject.size ≤ maxSlot) (limitFits : limit.frames ≤ maxSlot)
    (sound : thread.Sound program subject.size limit start) {next : Thread}
    (continues : thread.step program subject limit = .running next) :
    next.Sound program subject.size limit start := by
  obtain ⟨instruction, fetched⟩ := sound.fetched
  rw [step_of_fetch fetched] at continues
  by_cases misused : Misuses program thread.memory instruction
  · rw [execute_misused sound misused] at continues
    contradiction
  · exact (Step.ofEffect_safe (execute_safe unitsFit limitFits sound fetched
      (choiceTarget_le (Nat.le_succ_of_le short) fetched) misused)).1 next continues

/-- A step of a sound thread is a fault exactly if a look-around is left wrongly. -/
theorem step_fault_iff (short : program.bytes.length ≤ maxSlot)
    (unitsFit : subject.size ≤ maxSlot) (limitFits : limit.frames ≤ maxSlot)
    (sound : thread.Sound program subject.size limit start)
    (fetched : program.fetch thread.pc = some instruction) :
    (∃ fault memory, thread.step program subject limit = .ended (.fault fault) memory) ↔
      Misuses program thread.memory instruction := by
  rw [step_of_fetch fetched]
  constructor
  · rintro ⟨fault, memory, faults⟩
    refine Classical.byContradiction fun proper => ?_
    exact (Step.ofEffect_safe (execute_safe unitsFit limitFits sound fetched
      (choiceTarget_le (Nat.le_succ_of_le short) fetched) proper)).2 fault memory faults
  · intro misused
    rw [execute_misused sound misused]
    exact ⟨.noSuchFrame, .empty, rfl⟩

omit [CodeUnit α] in
/-- The thread that an attempt begins with is sound. -/
theorem sound_of_initial (unitsFit : subject.size ≤ maxSlot) (within : start ≤ subject.size)
    {memory : Memory} {first : Thread} (begins : initial program start memory = .ok first) :
    first.Sound program subject.size limit start := by
  obtain ⟨_, _, rfl⟩ := eq_of_initial begins
  exact ⟨program.exists_fetch_zero, Nat.le_refl start, within, .initial unitsFit within, [],
    .empty, Nat.zero_le limit.frames, by simp⟩

/-- Every thread that an attempt reaches is sound. -/
theorem Reachable.sound (short : program.bytes.length ≤ maxSlot)
    (unitsFit : subject.size ≤ maxSlot) (limitFits : limit.frames ≤ maxSlot)
    (within : start ≤ subject.size) (reachable : Reachable program subject limit start thread) :
    thread.Sound program subject.size limit start := by
  obtain ⟨memory, first, begins, steps⟩ := reachable
  induction steps with
  | refl => exact sound_of_initial unitsFit within begins
  | step prior continues inductionHypothesis =>
    exact step_sound short unitsFit limitFits inductionHypothesis continues

end Thread

/-- Whether an instruction leaves a look-around. -/
def Instruction.leavesLookaround {Target : Type} : Instruction Target → Bool
  | .assertionSuccess .. | .assertionFailure _ => true
  | _ => false

namespace Program

variable {program : Program} {subject : Array α} {limit : StackLimit} {start : Nat}

/-- An attempt that breaks off has reached a thread that leaves a look-around wrongly. -/
theorem exists_misuses_of_fault (short : program.bytes.length ≤ maxSlot)
    (unitsFit : subject.size ≤ maxSlot) (limitFits : limit.frames ≤ maxSlot)
    (within : start ≤ subject.size) (fits : program.frameFits = true) {memory after : Memory}
    {budget : Nat} {fault : Fault}
    (faults : attempt program subject limit budget start memory = some (.fault fault, after)) :
    ∃ thread instruction, Thread.Reachable program subject limit start thread ∧
      program.fetch thread.pc = some instruction ∧
      Misuses program thread.memory instruction := by
  rw [attempt, Thread.initial_eq_ok fits (Nat.le_trans within unitsFit)] at faults
  obtain ⟨last, steps, ends⟩ := Thread.exists_last_of_run faults
  have reachable : Thread.Reachable program subject limit start last :=
    ⟨memory, _, Thread.initial_eq_ok fits (Nat.le_trans within unitsFit) memory, steps⟩
  have sound := reachable.sound short unitsFit limitFits within
  obtain ⟨instruction, fetched⟩ := sound.fetched
  exact ⟨last, instruction, reachable, fetched,
    (Thread.step_fault_iff short unitsFit limitFits sound fetched).mp ⟨fault, after, ends⟩⟩

/-- Every thread that an attempt reaches stands at an instruction of the program and between
the start and the end of the subject, and its stack is made of whole frames with positions
there. Its next step breaks the attempt off exactly if it leaves a look-around wrongly, so an
attempt of a program without look-arounds never does if one array holds a frame. -/
theorem attempt_safe (matcher : Matcher) (program : Program) (subject : Array α) (start : Nat)
    (short : program.bytes.length ≤ maxSlot) (unitsFit : subject.size ≤ maxSlot)
    (within : start ≤ subject.size) :
    (∀ thread, Thread.Reachable program subject matcher.limit start thread →
      ∃ instruction frames,
        ⟨thread.pc, instruction⟩ ∈ program.entries ∧
        program.fetch thread.pc = some instruction ∧
        start ≤ thread.position ∧ thread.position ≤ subject.size ∧
        thread.memory.state.size = program.frameSize ∧
        (∀ content ∈ thread.memory.state, unset ≤ content) ∧
        Stacked program.frameSize thread.memory.stack frames ∧
        thread.memory.stack.size = frames.length * program.frameSize ∧
        (∀ frame ∈ frames, (∀ content ∈ frame, unset ≤ content) ∧
          ∃ position : Nat, frame[1]? = some (position : Int) ∧
            start ≤ position ∧ position ≤ subject.size) ∧
        ((∃ fault memory,
            thread.step program subject matcher.limit = .ended (.fault fault) memory) ↔
          Misuses program thread.memory instruction)) ∧
    ((∀ entry ∈ program.entries, entry.instruction.leavesLookaround = false) →
      program.frameFits = true → ∀ memory budget fault after,
        attempt program subject matcher.limit budget start memory ≠
          some (.fault fault, after)) := by
  have limitFits := matcher.limit_le
  constructor
  · intro thread reachable
    have sound := reachable.sound short unitsFit limitFits within
    obtain ⟨instruction, fetched⟩ := sound.fetched
    obtain ⟨frames, stacked, _, framesSound⟩ := sound.memory.stack
    refine ⟨instruction, frames, fetch_eq_some_iff.mp fetched, fetched, sound.started,
      sound.within, sound.memory.state.sized, sound.memory.state.atLeast, stacked,
      stacked.size_eq, ?_, Thread.step_fault_iff short unitsFit limitFits sound fetched⟩
    exact fun frame member =>
      ⟨(framesSound frame member).cells.atLeast, (framesSound frame member).position⟩
  · intro noLookaround fits memory budget fault after faults
    obtain ⟨thread, instruction, _, fetched, misused⟩ :=
      exists_misuses_of_fault short unitsFit limitFits within fits faults
    have leavesNone := noLookaround _ (fetch_eq_some_iff.mp fetched)
    cases misused <;> contradiction

/-- A look-ahead at the end of the subject begins there and never moves. -/
theorem attempt_safe_lookahead :
    ∃ program,
      ofBytes [0, 0, 0, 0, 0, 16, 19, 0, 0, 0, 3, 0, 0, 0, 0, 20, 0, 0, 0, 28, 29] 1 1 =
        .ok program ∧
      program.bytes.length ≤ maxSlot ∧
      (∃ thread,
        Thread.Reachable program (#[] : Array UInt8) Matcher.default.limit 0 thread) ∧
      ∀ thread, Thread.Reachable program (#[] : Array UInt8) Matcher.default.limit 0 thread →
        thread.position = 0 := by
  have valid : error? [0, 0, 0, 0, 0, 16, 19, 0, 0, 0, 3, 0, 0, 0, 0, 20, 0, 0, 0, 28, 29] 1 1 =
      none := by
    decide +kernel
  obtain ⟨program, accepted, bytes, captures, counters, _⟩ := exists_ofBytes valid
  have short : program.bytes.length ≤ maxSlot := by
    rw [bytes]
    decide
  have fits : program.frameFits = true := by
    simp [frameFits, frameSize, slotCount, captures, counters, arrayLimit]
  refine ⟨program, accepted, short,
    ⟨_, .empty, _, Thread.initial_eq_ok fits (Nat.zero_le _) .empty, .refl⟩, ?_⟩
  intro thread reachable
  obtain ⟨_, _, _, _, _, atEnd, _⟩ :=
    (attempt_safe Matcher.default program #[] 0 short (by decide) (by decide)).1 thread reachable
  exact Nat.eq_zero_of_le_zero atEnd

end Program

end RegexMachine
