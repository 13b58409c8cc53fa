import RegexMachine.Proofs.AbandonedChoice

/-!
# Resume offsets

A frame keeps the offset to resume at in a slot. Validation asks that an instruction stands there,
and not that a slot holds the offset, and nothing else bounds the length of a program. A choice
with a target that a slot holds pushes a frame that resumes exactly there
(`Thread.returnsTo_of_fits`), and one with a target further away breaks the attempt off
(`Thread.step_of_far`): `Program.returnsTo_iff` says so for every thread of every program, however
long. `Program.not_returnsToTargets` has a program that is accepted and breaks off.
-/

namespace RegexMachine

variable {α : Type} [CodeUnit α]

/-- What it means that a choice resumes at its target: it goes on with a frame on the stack whose
last cell is the target, and a thread that resumes the frame, at once or later, does so at the
target. -/
structure Thread.ReturnsTo (program : Program) (subject : Array α) (limit : StackLimit)
    (target : UInt32) (thread : Thread) : Prop where
  pushes : ∃ pushed, thread.step program subject limit = .running pushed ∧
    pushed.memory.stack[pushed.memory.stack.size - 1]? = some (target.toNat : Int) ∧
    (pushed.memory.pop? program.frameSize).map Thread.pc = some target.toNat
  resumes : ∀ pushed last resumed, thread.step program subject limit = .running pushed →
    StepsAbove program subject limit (thread.memory.depth program.frameSize) pushed last →
    Pops program subject limit (thread.memory.depth program.frameSize) last resumed →
    resumed.pc = target.toNat

/-- What it means that the choices of a program resume at their targets: every thread that an
attempt on a subject reaches at a choice, where nothing refuses the frame, returns to the target. -/
def Program.ReturnsToTargets (program : Program) (subject : Array α) : Prop :=
  ∀ start ≤ subject.size, ∀ (matcher : Matcher) (thread : Thread) (target : UInt32),
    Thread.Reachable program subject matcher.limit start thread →
    program.fetch thread.pc = some (.pushBacktrack target) →
    thread.memory.refusal? program.frameSize matcher.limit = none →
    thread.ReturnsTo program subject matcher.limit target

/-- The last cell of the stack after a push holds the offset to resume at. -/
theorem Memory.getElem?_pushed_last {memory : Memory} {size position resume : Nat}
    (sized : memory.state.size = size) (large : 2 < size) :
    (memory.pushed size position resume).stack[
        (memory.pushed size position resume).stack.size - 1]? = some (resume : Int) := by
  have newest : (frame size position resume memory.state).size = size := by
    rw [size_frame, sized]
  have last : memory.stack.size + size - 1 - memory.stack.size = size - 1 := by omega
  rw [pushed, Array.size_append, newest, Array.getElem?_append_right (by omega), last,
    getElem?_frame sized large, if_pos rfl]

/-- A pop after a push resumes the frame of the push. -/
theorem Memory.pop?_pushed {memory : Memory} {size position resume : Nat}
    (sized : memory.state.size = size) (large : 2 < size) :
    (memory.pushed size position resume).pop? size =
      some ⟨resume, position, memory.restored size position resume⟩ := by
  obtain ⟨present, resumes⟩ := resumed_pushed sized large rfl
  rw [pop?, if_pos present, resumes]

namespace Thread

variable {program : Program} {subject : Array α} {limit : StackLimit} {start : Nat}
  {thread : Thread} {target : UInt32}

/-- A choice whose target no slot holds breaks the attempt off. -/
theorem step_of_far (fetched : program.fetch thread.pc = some (.pushBacktrack target))
    (room : thread.memory.refusal? program.frameSize limit = none) (far : maxSlot < target.toNat) :
    thread.step program subject limit = .ended (.fault .slotOverflow) .empty := by
  rw [step_of_fetch fetched, execute]
  simp only [Memory.push_eq_fault room (.inr far)]
  rfl

/-- A step keeps a thread sound also in a program with targets that no slot holds, since it does
not run on where it would have to keep one. -/
theorem sound_of_running (unitsFit : subject.size ≤ maxSlot) (limitFits : limit.frames ≤ maxSlot)
    (sound : thread.Sound program subject.size limit start) {next : Thread}
    (continues : thread.step program subject limit = .running next) :
    next.Sound program subject.size limit start := by
  obtain ⟨instruction, fetched⟩ := sound.fetched
  by_cases misused : Misuses program thread.memory instruction
  · rw [step_of_fetch fetched, execute_misused sound misused] at continues
    contradiction
  by_cases targetFits : ∀ target, instruction = .pushBacktrack target → target.toNat ≤ maxSlot
  · rw [step_of_fetch fetched] at continues
    exact (Step.ofEffect_safe (execute_safe unitsFit limitFits sound fetched targetFits
      misused)).1 next continues
  · simp only [not_forall, Nat.not_le] at targetFits
    obtain ⟨target, rfl, far⟩ := targetFits
    cases room : thread.memory.refusal? program.frameSize limit with
    | none =>
      rw [step_of_far fetched room far] at continues
      contradiction
    | some error =>
      rw [step_of_refused fetched room] at continues
      contradiction

/-- Every thread that an attempt reaches is sound, however long the program is. -/
theorem Reachable.sound_of_any_length (unitsFit : subject.size ≤ maxSlot)
    (limitFits : limit.frames ≤ maxSlot) (within : start ≤ subject.size)
    (reachable : Reachable program subject limit start thread) :
    thread.Sound program subject.size limit start := by
  obtain ⟨memory, first, begins, steps⟩ := reachable
  induction steps with
  | refl => exact sound_of_initial unitsFit within begins
  | step prior continues inductionHypothesis =>
    exact sound_of_running unitsFit limitFits inductionHypothesis continues

/-- A choice whose target a slot holds resumes at the target. -/
theorem returnsTo_of_fits (sound : thread.Sound program subject.size limit start)
    (unitsFit : subject.size ≤ maxSlot)
    (fetched : program.fetch thread.pc = some (.pushBacktrack target))
    (room : thread.memory.refusal? program.frameSize limit = none) (fits : target.toNat ≤ maxSlot) :
    thread.ReturnsTo program subject limit target := by
  have steps : thread.step program subject limit = _ :=
    step_of_room fetched room (Nat.le_trans sound.within unitsFit) fits
  have sized := sound.memory.state.sized
  have large := program.two_lt_frameSize
  obtain ⟨frames, stacked, _, _⟩ := sound.memory.stack
  constructor
  · refine ⟨_, steps, ?_, ?_⟩
    · exact Memory.getElem?_pushed_last sized large
    · rw [Memory.pop?_pushed sized large]
      rfl
  · intro pushed last resumed pushes above pops
    obtain rfl := Step.running.inj (steps.symm.trans pushes)
    rw [pops.resumed_eq sized stacked rfl above]

end Thread

namespace Instruction

/-- A choice over a number of failures. It resumes at the success behind them. -/
def choiceOver (count : Nat) : List (Instruction UInt32) :=
  .pushBacktrack (UInt32.ofNat (count + 5)) :: (List.replicate count .failure ++ [.success])

/-- Failures take a byte each. -/
theorem totalLength_replicate_failure (count : Nat) :
    totalLength (List.replicate count (.failure : Instruction UInt32)) = count := by
  induction count with
  | zero => rfl
  | succ count inductionHypothesis =>
    rw [List.replicate_succ, totalLength_cons, inductionHypothesis, Nat.add_comm]
    rfl

/-- The bytes of a choice over failures. -/
theorem flatMap_encode_choiceOver (count : Nat) :
    (choiceOver count).flatMap encode =
      16 :: LittleEndian.ofUInt32 (UInt32.ofNat (count + 5)) ++
        List.replicate count 28 ++ [29] := by
  have failures : (List.replicate count (.failure : Instruction UInt32)).flatMap encode =
      List.replicate count 28 := by
    rw [List.flatMap_replicate]
    exact List.flatten_replicate_singleton
  rw [choiceOver, List.flatMap_cons, List.flatMap_append, failures, List.append_assoc]
  rfl

/-- A choice over failures is a program if a word holds its target. -/
theorem wellFormed_choiceOver {count : Nat} (targetFits : count + 5 < wordLimit) :
    WellFormed ((choiceOver count).flatMap encode) 1 0 (choiceOver count) := by
  have target : (UInt32.ofNat (count + 5)).toNat = count + 5 :=
    UInt32.toNat_ofNat_of_lt' targetFits
  -- The failures are too many to go through, so an instruction is judged by its kind.
  have kinds : ∀ instruction ∈ choiceOver count,
      instruction = .pushBacktrack (UInt32.ofNat (count + 5)) ∨ instruction = .failure ∨
        instruction = .success := by
    intro instruction member
    rcases List.mem_cons.mp member with choice | later
    · exact .inl choice
    · rcases List.mem_append.mp later with failure | success
      · exact .inr (.inl (List.eq_of_mem_replicate failure))
      · exact .inr (.inr (List.mem_singleton.mp success))
  refine Program.wellFormed_of_admissible (Nat.le_refl 1) (by simp [choiceOver]) ?_ ?_ ?_
  · intro instruction member
    rcases kinds instruction member with rfl | rfl | rfl
    all_goals
      refine ⟨trivial, ?_⟩
      rintro defect (_ | _ | _ | _ | ⟨uses, _⟩ | _)
      contradiction
  · intro instruction member goal jumps
    rcases kinds instruction member with rfl | rfl | rfl
    · obtain rfl := Option.some.inj jumps
      refine ⟨⟨count + 5, .success⟩, Located.mem_layout_iff.mpr
        ⟨.pushBacktrack (UInt32.ofNat (count + 5)) :: List.replicate count .failure, [], rfl, ?_⟩,
        target.symm⟩
      rw [totalLength_cons, totalLength_replicate_failure]
      simp only [length]
      omega
    · contradiction
    · contradiction
  · intro last found
    rw [choiceOver, ← List.cons_append, List.getLast?_concat] at found
    obtain rfl := Option.some.inj found
    rfl

end Instruction

namespace Program

variable {program : Program} {subject : Array α}

/-- Exactly the choices with a target that a slot holds resume there. In a program that is not
longer than a slot can count all of them do. A choice with another target breaks the attempt
off. -/
theorem returnsTo_iff (program : Program) (subject : Array α)
    (unitsFit : subject.size ≤ maxSlot) :
    (program.bytes.length ≤ maxSlot + 1 → program.ReturnsToTargets subject) ∧
    ∀ start ≤ subject.size, ∀ (matcher : Matcher) (thread : Thread) (target : UInt32),
      Thread.Reachable program subject matcher.limit start thread →
      program.fetch thread.pc = some (.pushBacktrack target) →
      thread.memory.refusal? program.frameSize matcher.limit = none →
      (thread.ReturnsTo program subject matcher.limit target ↔ target.toNat ≤ maxSlot) ∧
      (maxSlot < target.toNat →
        thread.step program subject matcher.limit = .ended (.fault .slotOverflow) .empty) := by
  constructor
  · intro short start within matcher thread target reachable fetched room
    have sound := reachable.sound_of_any_length unitsFit matcher.limit_le within
    exact Thread.returnsTo_of_fits sound unitsFit fetched room
      (Thread.choiceTarget_le short fetched target rfl)
  · intro start within matcher thread target reachable fetched room
    have sound := reachable.sound_of_any_length unitsFit matcher.limit_le within
    refine ⟨⟨?_, Thread.returnsTo_of_fits sound unitsFit fetched room⟩,
      Thread.step_of_far fetched room⟩
    intro returns
    obtain ⟨pushed, steps, _⟩ := returns.pushes
    refine Nat.le_of_not_lt fun far => ?_
    rw [Thread.step_of_far fetched room far] at steps
    contradiction

/-- A choice that resumes at the match behind a failure returns to it. -/
theorem returnsTo_iff_behind_failure :
    ∃ program, ofBytes [16, 6, 0, 0, 0, 28, 29] 1 0 = .ok program ∧
      program.fetch 0 = some (.pushBacktrack 6) ∧
      ∃ first, Thread.initial program 0 .empty = .ok first ∧
        first.ReturnsTo program (#[] : Array UInt8) Matcher.default.limit 6 := by
  have valid : error? [16, 6, 0, 0, 0, 28, 29] 1 0 = none := by
    decide +kernel
  obtain ⟨program, accepted, bytes, captures, counters, entries⟩ := exists_ofBytes valid
  have fits : program.frameFits = true := by
    rw [frameFits, frameSize, slotCount, captures, counters]
    decide
  have short : program.bytes.length ≤ maxSlot + 1 := by
    rw [bytes]
    decide
  have fetched : program.fetch 0 = some (.pushBacktrack 6) := by
    rw [fetch_eq_some_iff, entries]
    decide +kernel
  have begins := Thread.initial_eq_ok fits (Nat.zero_le maxSlot) .empty
  exact ⟨program, accepted, fetched, _, begins,
    (returnsTo_iff program (#[] : Array UInt8) (by decide)).1 short 0 (Nat.le_refl 0)
      Matcher.default _ 6 ⟨.empty, _, begins, .refl⟩ fetched
      (Memory.refusal?_of_frameless _ (by decide) (of_decide_eq_true fits))⟩

/-- A choice over more failures than a slot can count is accepted and does not return. -/
theorem exists_not_returnsToTargets_choiceOver (count : Nat) (targetFits : count + 5 < wordLimit)
    (far : maxSlot < count + 5) :
    ∃ program, ofBytes ((Instruction.choiceOver count).flatMap Instruction.encode) 1 0 =
        .ok program ∧
      program.frameFits = true ∧ ¬ program.ReturnsToTargets (#[] : Array UInt8) := by
  have wellFormed := Instruction.wellFormed_choiceOver targetFits
  obtain ⟨program, accepted, _, captures, counters, entries⟩ :=
    exists_ofBytes (error?_of_wellFormed wellFormed)
  have fits : program.frameFits = true := by
    rw [frameFits, frameSize, slotCount, captures, counters]
    decide
  have fetched : program.fetch 0 = some (.pushBacktrack (UInt32.ofNat (count + 5))) := by
    rw [fetch_eq_some_iff, entries, Disassembly.ofStream_flatMap_encode wellFormed.encodable]
    exact List.mem_cons_self
  have target : (UInt32.ofNat (count + 5)).toNat = count + 5 :=
    UInt32.toNat_ofNat_of_lt' targetFits
  refine ⟨program, accepted, fits, fun returns => ?_⟩
  have begins := Thread.initial_eq_ok fits (Nat.zero_le maxSlot) .empty
  have room : (⟨(Array.replicate program.frameSize unset).setIfInBounds 0 ((0 : Nat) : Int),
      #[]⟩ : Memory).refusal? program.frameSize Matcher.default.limit = none :=
    Memory.refusal?_of_frameless _ (by decide) (of_decide_eq_true fits)
  obtain ⟨pushed, steps, _⟩ :=
    (returns 0 (Nat.le_refl 0) Matcher.default _ _ ⟨.empty, _, begins, .refl⟩ fetched room).pushes
  rw [Thread.step_of_far fetched room (target.symm ▸ far)] at steps
  contradiction

/-- Validation admits a target that does not survive: that of a choice over so many failures that
it is one more than a slot holds. -/
theorem not_returnsToTargets :
    ∃ program,
      ofBytes ([16, 0, 0, 0, 128] ++ List.replicate 0x7FFFFFFB 28 ++ [29]) 1 0 = .ok program ∧
      program.frameFits = true ∧ ¬ program.ReturnsToTargets (#[] : Array UInt8) := by
  have target : LittleEndian.ofUInt32 (UInt32.ofNat (0x7FFFFFFB + 5)) = [0, 0, 0, 128] := by
    decide +kernel
  obtain ⟨program, accepted, fits, breaks⟩ :=
    exists_not_returnsToTargets_choiceOver 0x7FFFFFFB (by decide) (by decide)
  rw [Instruction.flatMap_encode_choiceOver, target] at accepted
  exact ⟨program, accepted, fits, breaks⟩

end Program

end RegexMachine
