import RegexMachine.Proofs.Assembling
import RegexMachine.Proofs.Effects
import RegexMachine.Proofs.Runs
import RegexMachine.Proofs.WiderFrames

/-!
# Threads that run alike

Two threads run alike if they stand at instructions that do the same, at the same position, and if
their memories hold the same but for what is never looked at: the resume offset in the last cell of
a state and, in programs that do not ask for the text of group 0, the end of that group. In frames
these two cells are written by the push that makes them, so there they count: frames hold the same
positions, and resume at offsets that belong together (`FrameAlike`). The instructions may stand at
different offsets in two programs; which offsets belong together is a relation `places`.
`Thread.step_alike` is the step of such threads, `Thread.run_alike` their run.
-/

namespace RegexMachine

variable {α : Type} [CodeUnit α]

/-- States, or frames, of the same size that hold the same, the resume offset apart. The end of
group 0 is compared only if it counts. -/
structure CellsAlike (size : Nat) (endCounts : Prop) (cells other : Array Int) : Prop where
  sized : cells.size = size
  otherSized : other.size = size
  same : ∀ cell < size - 1, (cell = 1 → endCounts) → other[cell]? = cells[cell]?

/-- Frames that hold the same and resume at offsets that belong together. -/
structure FrameAlike (size : Nat) (places : Nat → Nat → Prop) (frame other : Array Int) : Prop where
  cells : CellsAlike size True frame other
  resume : ∃ resume otherResume : Nat, places resume otherResume ∧
    frame[size - 1]? = some (resume : Int) ∧ other[size - 1]? = some (otherResume : Int)

/-- Memories with states that hold the same and with frames that are alike one by one. -/
structure Memory.Alike (size : Nat) (places : Nat → Nat → Prop) (endCounts : Prop)
    (memory other : Memory) : Prop where
  state : CellsAlike size endCounts memory.state other.state
  stack : ∃ frames otherFrames, Stacked size memory.stack frames ∧
    Stacked size other.stack otherFrames ∧ List.Forall₂ (FrameAlike size places) frames otherFrames

/-- Threads at offsets that belong together and at the same position, with memories that are
alike. -/
inductive Thread.Alike (size : Nat) (places : Nat → Nat → Prop) (endCounts : Prop) :
    Thread → Thread → Prop where
  | mk {pc otherPc position : Nat} {memory other : Memory} (placed : places pc otherPc)
      (alike : Memory.Alike size places endCounts memory other) :
      Alike size places endCounts ⟨pc, position, memory⟩ ⟨otherPc, position, other⟩

/-- Effects of the same kind on threads or memories that are alike. Matches report the same ends
of groups. -/
inductive Effect.Alike (program : Program) (places : Nat → Nat → Prop) (endCounts : Prop) :
    Effect → Effect → Prop where
  | proceed {thread other : Thread}
      (alike : Thread.Alike program.frameSize places endCounts thread other) :
      Alike program places endCounts (.proceed thread) (.proceed other)
  | fail {memory other : Memory}
      (alike : Memory.Alike program.frameSize places endCounts memory other) :
      Alike program places endCounts (.fail memory) (.fail other)
  | accept {memory other : Memory} (groups : other.state.extract 0 program.slotCount =
        memory.state.extract 0 program.slotCount) :
      Alike program places endCounts (.accept memory) (.accept other)

/-- Steps to threads that are alike, or to the same end. -/
inductive Step.Alike (size : Nat) (places : Nat → Nat → Prop) (endCounts : Prop) :
    Step → Step → Prop where
  | running {thread other : Thread} (alike : Thread.Alike size places endCounts thread other) :
      Alike size places endCounts (.running thread) (.running other)
  | ended (outcome : Outcome) (memory other : Memory) :
      Alike size places endCounts (.ended outcome memory) (.ended outcome other)

/-- Programs with the same groups, scratch slots and letter case, and offsets of theirs that belong
together. A slot holds all these offsets. -/
structure Program.Moves (program other : Program) (places : Nat → Nat → Prop) : Prop where
  captures : other.captures = program.captures
  counters : other.counters = program.counters
  ignoreCase : other.ignoreCase = program.ignoreCase
  fits : ∀ pc otherPc, places pc otherPc → pc ≤ maxSlot ∧ otherPc ≤ maxSlot

/-- Whether the instructions at two offsets do the same: they differ in nothing but their targets,
and these belong together, as do the offsets behind them. One that asks for the text of group 0
makes the end of that group count. -/
inductive Program.Paired (program other : Program) (places : Nat → Nat → Prop) (endCounts : Prop)
    (pc otherPc : Nat) : Prop where
  | mk {instruction otherInstruction : Instruction UInt32}
      (fetched : program.fetch pc = some instruction)
      (otherFetched : other.fetch otherPc = some otherInstruction)
      (resolved : instruction.Resolved (fun target otherTarget =>
        places target.toNat otherTarget.toNat) otherInstruction)
      (next : instruction.fallsThrough = true →
        places (pc + instruction.length) (otherPc + otherInstruction.length))
      (asksEnd : ∀ ignoreCase, instruction = .backReference 0 ignoreCase → endCounts) :
      Paired program other places endCounts pc otherPc

namespace CellsAlike

variable {size : Nat} {places : Nat → Nat → Prop} {endCounts : Prop} {cells other : Array Int}

/-- A state is like itself. -/
theorem refl (sized : cells.size = size) : CellsAlike size endCounts cells cells :=
  ⟨sized, sized, fun _ _ _ => rfl⟩

/-- States that are alike in the end of group 0 too are alike where it does not count. -/
theorem weaken (alike : CellsAlike size True cells other) :
    CellsAlike size endCounts cells other :=
  ⟨alike.sized, alike.otherSized, fun cell within _ => alike.same cell within fun _ => trivial⟩

variable (alike : CellsAlike size endCounts cells other)
include alike

/-- A cell set on both sides. -/
theorem set (cell : Nat) (content : Int) :
    CellsAlike size endCounts (cells.setIfInBounds cell content)
      (other.setIfInBounds cell content) where
  sized := by rw [Array.size_setIfInBounds, alike.sized]
  otherSized := by rw [Array.size_setIfInBounds, alike.otherSized]
  same := by
    intro place within counts
    rw [Array.getElem?_setIfInBounds, Array.getElem?_setIfInBounds, alike.sized,
      alike.otherSized, alike.same place within counts]

/-- Cells unset on both sides. -/
theorem clear (first count : Nat) :
    CellsAlike size endCounts (Memory.unsetCells cells first count)
      (Memory.unsetCells other first count) where
  sized := by rw [Memory.size_unsetCells, alike.sized]
  otherSized := by rw [Memory.size_unsetCells, alike.otherSized]
  same := by
    intro place within counts
    rw [Memory.getElem?_unsetCells, Memory.getElem?_unsetCells, alike.sized, alike.otherSized,
      alike.same place within counts]

/-- Frames copied from both states are alike, because a push writes the cells that the states may
differ in. -/
theorem frame (large : 2 < size) (position : Nat) {resume otherResume : Nat}
    (placed : places resume otherResume) :
    FrameAlike size places (Memory.frame size position resume cells)
      (Memory.frame size position otherResume other) where
  cells := by
    refine ⟨by rw [Memory.size_frame, alike.sized], by rw [Memory.size_frame, alike.otherSized], ?_⟩
    intro cell within _
    rw [Memory.getElem?_frame alike.sized large, Memory.getElem?_frame alike.otherSized large,
      if_neg (Nat.ne_of_lt within), if_neg (Nat.ne_of_lt within)]
    by_cases second : cell = 1
    · rw [if_pos second, if_pos second]
    · rw [if_neg second, if_neg second]
      exact alike.same cell within fun is => absurd is second
  resume := by
    refine ⟨resume, otherResume, placed, ?_, ?_⟩
    · rw [Memory.getElem?_frame alike.sized large, if_pos rfl]
    · rw [Memory.getElem?_frame alike.otherSized large, if_pos rfl]

/-- A match reports the same ends of groups, because it sets the end of group 0. -/
theorem extract_groups {count : Nat} (position : Int) (inside : count < size) :
    (other.setIfInBounds 1 position).extract 0 count =
      (cells.setIfInBounds 1 position).extract 0 count := by
  apply Array.ext_getElem?
  intro cell
  rw [Array.getElem?_extract, Array.getElem?_extract, Array.size_setIfInBounds,
    Array.size_setIfInBounds, alike.sized, alike.otherSized, Nat.zero_add,
    Array.getElem?_setIfInBounds, Array.getElem?_setIfInBounds, alike.sized, alike.otherSized]
  by_cases within : cell < min count size - 0
  · rw [if_pos within, if_pos within]
    by_cases second : 1 = cell
    · rw [if_pos second, if_pos second]
    · rw [if_neg second, if_neg second]
      exact alike.same cell (by omega) fun is => absurd is.symm second
  · rw [if_neg within, if_neg within]

end CellsAlike

namespace Memory.Alike

variable {size : Nat} {places : Nat → Nat → Prop} {endCounts : Prop} {memory other : Memory}
  (alike : Memory.Alike size places endCounts memory other)
include alike

/-- The stacks hold the same number of frames. -/
theorem depth_eq (positive : 0 < size) : other.depth size = memory.depth size := by
  obtain ⟨frames, otherFrames, stacked, otherStacked, framesAlike⟩ := alike.stack
  rw [Memory.depth_eq stacked positive, Memory.depth_eq otherStacked positive,
    framesAlike.length_eq]

/-- A cell that counts is read alike on both sides. -/
theorem read_eq {cell : Nat} (within : cell < size - 1) (counts : cell = 1 → endCounts) :
    other.read cell = memory.read cell := by
  rw [read, read, alike.state.same cell within counts]

/-- A cell is written on both sides, or on none. -/
theorem write_alike (cell : Nat) (content : Int) :
    Agree (Memory.Alike size places endCounts) (memory.write cell content)
      (other.write cell content) := by
  rw [write, write, alike.state.sized, alike.state.otherSized]
  split
  · exact .ok ⟨alike.state.set cell content, alike.stack⟩
  · exact .error _

/-- Cells are unset on both sides, or on none. -/
theorem clear_alike (first stop : Nat) :
    Agree (Memory.Alike size places endCounts) (memory.clear first stop)
      (other.clear first stop) := by
  rw [clear, clear, alike.state.sized, alike.state.otherSized]
  split
  · exact .ok ⟨alike.state.clear first (stop - first), alike.stack⟩
  · exact .error _

/-- A frame is refused on both sides for the same reason, or on none. -/
theorem refusal?_eq (positive : 0 < size) (limit : StackLimit) :
    other.refusal? size limit = memory.refusal? size limit := by
  obtain ⟨frames, otherFrames, stacked, otherStacked, framesAlike⟩ := alike.stack
  rw [refusal?, refusal?, alike.depth_eq positive, stacked.size_eq, otherStacked.size_eq,
    framesAlike.length_eq]

/-- A frame is pushed on both sides, or refused on both. -/
theorem push_alike (large : 2 < size) (limit : StackLimit) (position : Nat)
    {resume otherResume : Nat} (placed : places resume otherResume)
    (fits : resume ≤ maxSlot ∧ otherResume ≤ maxSlot) :
    Agree (Memory.Alike size places endCounts) (memory.push size limit position resume)
      (other.push size limit position otherResume) := by
  have positive : 0 < size := Nat.lt_trans Nat.two_pos large
  have same := alike.refusal?_eq positive limit
  cases room : memory.refusal? size limit with
  | some error =>
    rw [push_eq_error room, push_eq_error (same.trans room)]
    exact .error _
  | none =>
    by_cases positionFits : position ≤ maxSlot
    · rw [push_eq_ok room positive positionFits fits.1,
        push_eq_ok (same.trans room) positive positionFits fits.2]
      obtain ⟨frames, otherFrames, stacked, otherStacked, framesAlike⟩ := alike.stack
      exact .ok ⟨alike.state, _, _, stacked_pushed stacked alike.state.sized _ _,
        stacked_pushed otherStacked alike.state.otherSized _ _,
        .cons (alike.state.frame large position placed) framesAlike⟩
    · have far := Nat.lt_of_not_le positionFits
      rw [push_eq_fault room (.inl far), push_eq_fault (same.trans room) (.inl far)]
      exact .error _

/-- The memories with both stacks cut to the same depth. -/
theorem cut_alike (depth : Nat) :
    Memory.Alike size places endCounts (memory.cut (depth * size)) (other.cut (depth * size)) := by
  obtain ⟨frames, otherFrames, stacked, otherStacked, framesAlike⟩ := alike.stack
  refine ⟨alike.state, _, _, stacked.cut depth, otherStacked.cut depth, ?_⟩
  rw [framesAlike.length_eq]
  exact List.forall₂_drop _ framesAlike

/-- The frames at a depth hold the same position, if there are any. -/
theorem framePosition_eq (large : 2 < size) (depth : Nat) :
    other.framePosition (depth * size) = memory.framePosition (depth * size) := by
  obtain ⟨frames, otherFrames, stacked, otherStacked, framesAlike⟩ := alike.stack
  have same : other.stack[depth * size + 1]? = memory.stack[depth * size + 1]? :=
    Stacked.positions_eq (Nat.lt_of_succ_lt large) (Nat.lt_of_succ_lt large)
      (fun _ _ frames => frames.cells.same 1 (by omega) fun _ => trivial) framesAlike stacked
      otherStacked depth
  rw [framePosition, framePosition, same]

end Memory.Alike

namespace Program.Moves

variable {program other : Program} {places : Nat → Nat → Prop} (moves : program.Moves other places)
include moves

/-- The ends of the groups take as many cells in both programs. -/
theorem slotCount_eq : other.slotCount = program.slotCount := by
  rw [slotCount, slotCount, moves.captures]

/-- Frames have as many cells in both programs. -/
theorem frameSize_eq : other.frameSize = program.frameSize := by
  rw [frameSize, frameSize, moves.slotCount_eq, moves.counters]

end Program.Moves

namespace Thread

variable {program other : Program} {subject : Array α} {limit : StackLimit}
  {places : Nat → Nat → Prop}
  {endCounts : Prop} {pc otherPc position next otherNext cell : Nat} {memory otherMemory : Memory}

section

variable (alike : Memory.Alike program.frameSize places endCounts memory otherMemory)
  (placed : places next otherNext)
include alike

/-- A group has the same text on both sides. -/
theorem group?_alike {group : Nat} (counts : group = 0 → endCounts) :
    otherMemory.group? program.captures group = memory.group? program.captures group := by
  rw [Memory.group?, Memory.group?]
  by_cases absent : program.captures ≤ group
  · rw [if_pos absent, if_pos absent]
  · have isEnd := Program.groupEnd_lt_slotCount (Nat.lt_of_not_le absent)
    have behind : program.slotCount ≤ program.frameSize - 1 := by
      have groups := program.slotCount_lt_frameSize
      omega
    rw [if_neg absent, if_neg absent, alike.read_eq (by omega) (by omega),
      alike.read_eq (by omega) fun same => counts (by omega)]

/-- A match is reported alike on both sides. -/
theorem accept_alike :
    Agree (Effect.Alike program places endCounts) (accept ⟨pc, position, memory⟩)
      (accept ⟨otherPc, position, otherMemory⟩) := by
  rw [accept, accept]
  cases toCell position with
  | error stop => exact .error stop
  | ok content =>
    simp only [Memory.write, alike.state.sized, alike.state.otherSized]
    rw [if_pos program.one_lt_frameSize, if_pos program.one_lt_frameSize]
    exact .ok (.accept (alike.state.extract_groups content program.slotCount_lt_frameSize))

include placed

/-- A test is passed or failed alike on both sides. -/
theorem consumeIf_alike (passed : Bool) (units : Nat) :
    Effect.Alike program places endCounts (.consumeIf passed next position units memory)
      (.consumeIf passed otherNext position units otherMemory) := by
  cases passed with
  | true => exact .proceed (.mk placed alike)
  | false => exact .fail alike

omit alike in
/-- Threads go on alike with the memories that an operation gives on both sides. -/
theorem withMemory_alike {result otherResult : Except Stop Memory}
    (agree : Agree (Memory.Alike program.frameSize places endCounts) result otherResult) :
    Agree (Effect.Alike program places endCounts) (Effect.withMemory next position result)
      (Effect.withMemory otherNext position otherResult) := by
  cases agree with
  | error stop => exact .error stop
  | ok alike => exact .ok (.proceed (.mk placed alike))

/-- A number is saved in a cell alike on both sides. -/
theorem save_alike (number cell : Nat) :
    Agree (Effect.Alike program places endCounts) (save number cell next ⟨pc, position, memory⟩)
      (save number cell otherNext ⟨otherPc, position, otherMemory⟩) := by
  rw [save, save]
  cases toCell number with
  | error stop => exact .error stop
  | ok content => exact withMemory_alike placed (alike.write_alike cell content)

/-- A group is opened alike on both sides. -/
theorem openGroup_alike (group : Nat) :
    Agree (Effect.Alike program places endCounts) (openGroup group next ⟨pc, position, memory⟩)
      (openGroup group otherNext ⟨otherPc, position, otherMemory⟩) := by
  rw [openGroup, openGroup]
  cases toCell position with
  | error stop => exact .error stop
  | ok content =>
    have written := alike.write_alike (2 * group) content
    simp only
    generalize memory.write (2 * group) content = result at written ⊢
    generalize otherMemory.write (2 * group) content = otherResult at written ⊢
    cases written with
    | error stop => exact .error stop
    | ok opened => exact withMemory_alike placed (opened.write_alike (2 * group + 1) unset)

/-- A change of position is required alike on both sides. -/
theorem requireMoved_alike (within : cell < program.frameSize - 1)
    (counts : cell = 1 → endCounts) :
    Agree (Effect.Alike program places endCounts)
      (requireMoved cell next ⟨pc, position, memory⟩)
      (requireMoved cell otherNext ⟨otherPc, position, otherMemory⟩) := by
  rw [requireMoved, requireMoved, alike.read_eq within counts]
  cases memory.read cell with
  | error stop => exact .error stop
  | ok saved =>
    simp only
    cases toCell position with
    | error stop => exact .error stop
    | ok here => exact .ok (consumeIf_alike alike placed _ _)

/-- A look-around that matched is left alike on both sides. -/
theorem leaveLookaround_alike (within : cell < program.frameSize - 1)
    (counts : cell = 1 → endCounts) :
    Agree (Effect.Alike program places endCounts)
      (leaveLookaround program.frameSize cell next ⟨pc, position, memory⟩)
      (leaveLookaround program.frameSize cell otherNext ⟨otherPc, position, otherMemory⟩) := by
  rw [leaveLookaround, leaveLookaround, alike.read_eq within counts]
  cases memory.read cell with
  | error stop => exact .error stop
  | ok content =>
    simp only
    cases counted : Memory.frameStart program.frameSize content with
    | error stop => exact .error stop
    | ok start =>
      obtain ⟨depth, -, rfl⟩ := Memory.eq_of_frameStart counted
      simp only [alike.framePosition_eq program.two_lt_frameSize]
      cases memory.framePosition (depth * program.frameSize) with
      | error stop => exact .error stop
      | ok position => exact .ok (.proceed (.mk placed (alike.cut_alike depth)))

omit placed in
/-- A negative look-around that matched fails alike on both sides. -/
theorem failLookaround_alike (within : cell < program.frameSize - 1)
    (counts : cell = 1 → endCounts) :
    Agree (Effect.Alike program places endCounts)
      (failLookaround program.frameSize cell ⟨pc, position, memory⟩)
      (failLookaround program.frameSize cell ⟨otherPc, position, otherMemory⟩) := by
  rw [failLookaround, failLookaround, alike.read_eq within counts]
  cases memory.read cell with
  | error stop => exact .error stop
  | ok content =>
    simp only
    cases counted : Memory.frameStart program.frameSize content with
    | error stop => exact .error stop
    | ok start =>
      obtain ⟨depth, -, rfl⟩ := Memory.eq_of_frameStart counted
      exact .ok (.fail (alike.cut_alike depth))

omit placed in
/-- A counter is counted up alike on both sides. -/
theorem count_alike (within : cell < program.frameSize - 1) (counts : cell = 1 → endCounts)
    (max : Nat) {target otherTarget : Nat} (jumps : places target otherTarget)
    (placed : places next otherNext) :
    Agree (Effect.Alike program places endCounts)
      (count cell max target next ⟨pc, position, memory⟩)
      (count cell max otherTarget otherNext ⟨otherPc, position, otherMemory⟩) := by
  rw [count, count, alike.read_eq within counts]
  cases memory.read cell with
  | error stop => exact .error stop
  | ok before =>
    simp only
    refine withMemory_alike ?_ (alike.write_alike cell _)
    split
    · exact jumps
    · exact placed

end

/-- Instructions that do the same do it alike to memories that are alike. -/
theorem execute_alike (moves : program.Moves other places)
    (alike : Memory.Alike program.frameSize places endCounts memory otherMemory)
    {instruction otherInstruction : Instruction UInt32}
    (fetched : program.fetch pc = some instruction)
    (resolved : instruction.Resolved (fun target otherTarget =>
      places target.toNat otherTarget.toNat) otherInstruction)
    (next : instruction.fallsThrough = true →
      places (pc + instruction.length) (otherPc + otherInstruction.length))
    (asksEnd : ∀ ignoreCase, instruction = .backReference 0 ignoreCase → endCounts) :
    Agree (Effect.Alike program places endCounts)
      (execute program subject limit instruction ⟨pc, position, memory⟩)
      (execute other subject limit otherInstruction ⟨otherPc, position, otherMemory⟩) := by
  have frames := moves.frameSize_eq
  have groups := moves.slotCount_eq
  have scratch : ∀ slot, instruction.slot? = some slot →
      program.slotCount + slot.toNat < program.frameSize - 1 ∧
        (program.slotCount + slot.toNat = 1 → endCounts) := by
    intro slot uses
    have inScratch := Program.slot_lt_counters fetched uses
    have large := program.one_lt_slotCount
    rw [Program.frameSize]
    exact ⟨by omega, by omega⟩
  cases resolved with
  | storeSp slot =>
    simp only [execute, frames, groups, alike.depth_eq program.frameSize_pos]
    exact save_alike alike (next rfl) _ _
  | storePosition slot =>
    simp only [execute, groups]
    exact save_alike alike (next rfl) _ _
  | counterZero slot =>
    simp only [execute, groups]
    exact save_alike alike (next rfl) _ _
  | positionTest slot =>
    obtain ⟨within, counts⟩ := scratch slot rfl
    simp only [execute, groups]
    exact requireMoved_alike alike (next rfl) within counts
  | assertionSuccess slot related =>
    obtain ⟨within, counts⟩ := scratch slot rfl
    simp only [execute, frames, groups]
    exact leaveLookaround_alike alike related within counts
  | assertionFailure slot =>
    obtain ⟨within, counts⟩ := scratch slot rfl
    simp only [execute, frames, groups]
    exact failLookaround_alike alike within counts
  | counterNext slot max related =>
    obtain ⟨within, counts⟩ := scratch slot rfl
    simp only [execute, groups]
    exact count_alike alike within counts max.toNat related (next rfl)
  | assertion anchor =>
    simp only [execute, test]
    cases anchor.holds subject position with
    | error stop => exact .error stop
    | ok held => exact .ok (consumeIf_alike alike (next rfl) _ _)
  | startCapture group => exact openGroup_alike alike (next rfl) _
  | endCapture group => exact save_alike alike (next rfl) _ _
  | clearCaptures first stop => exact withMemory_alike (next rfl) (alike.clear_alike _ _)
  | pushBacktrack related =>
    simp only [execute, frames]
    exact withMemory_alike (next rfl)
      (alike.push_alike program.two_lt_frameSize limit position related (moves.fits _ _ related))
  | backReference group ignoreCase =>
    have counts : group.toNat = 0 → endCounts := fun zero =>
      asksEnd ignoreCase (congrArg (Instruction.backReference · ignoreCase)
        (UInt16.toNat_inj.mp zero))
    simp only [execute, backReference, moves.captures, group?_alike alike counts]
    cases memory.group? program.captures group.toNat with
    | error stop => exact .error stop
    | ok text =>
      cases text with
      | none => exact .ok (.proceed (.mk (next rfl) alike))
      | some text =>
        simp only
        split
        · exact .error _
        · split
          · exact .ok (.fail alike)
          · split
            · exact .error _
            · exact .ok (consumeIf_alike alike (next rfl) _ _)
  | checkByte | checkUnit | checkAny | checkRange =>
    exact .ok (consumeIf_alike alike (next rfl) _ _)
  | checkLiteral units =>
    simp only [execute, literal, moves.ignoreCase]
    split
    · exact .error _
    · exact .ok (consumeIf_alike alike (next rfl) _ _)
  | jump related => exact .ok (.proceed (.mk related alike))
  | failure => exact .ok (.fail alike)
  | success => exact accept_alike alike

/-- A failure resumes frames that are alike, or ends both attempts. -/
theorem ofFailure_alike
    (alike : Memory.Alike program.frameSize places endCounts memory otherMemory) :
    Step.Alike program.frameSize places endCounts (.ofFailure program.frameSize memory)
      (.ofFailure program.frameSize otherMemory) := by
  obtain ⟨frames, otherFrames, stacked, otherStacked, framesAlike⟩ := alike.stack
  obtain ⟨state, stack⟩ := memory
  obtain ⟨otherState, otherStack⟩ := otherMemory
  simp only at stacked otherStacked
  cases framesAlike with
  | nil =>
    cases stacked
    cases otherStacked
    rw [Step.ofFailure_nil rfl, Step.ofFailure_nil rfl]
    exact .ended .unmatched _ _
  | @cons frame otherFrame _ _ newest older =>
    cases stacked with
    | @push below _ _ stacked sized =>
      cases otherStacked with
      | @push otherBelow _ _ otherStacked otherSized =>
        have resumes : (⟨state, below ++ frame⟩ : Memory).hasFrame program.frameSize = true ∧ _ :=
          Memory.resumed_append sized
        have otherResumes : (⟨otherState, otherBelow ++ otherFrame⟩ : Memory).hasFrame
            program.frameSize = true ∧ _ :=
          Memory.resumed_append otherSized
        obtain ⟨resume, otherResume, placed, last, otherLast⟩ := newest.resume
        have large := program.two_lt_frameSize
        have position := newest.cells.same 1 (by omega) fun _ => trivial
        rw [Step.ofFailure, Step.ofFailure, if_pos resumes.1, if_pos otherResumes.1, resumes.2,
          otherResumes.2, position, last, otherLast]
        exact .running (.mk placed ⟨newest.cells.weaken, _, _, stacked, otherStacked, older⟩)

/-- Effects that are alike amount to steps that are. -/
theorem ofEffect_alike (moves : program.Moves other places)
    {effect otherEffect : Except Stop Effect}
    (agree : Agree (Effect.Alike program places endCounts) effect otherEffect) :
    Step.Alike program.frameSize places endCounts (.ofEffect program effect)
      (.ofEffect other otherEffect) := by
  cases agree with
  | error stop => exact .ended _ _ _
  | ok agree =>
    cases agree with
    | proceed alike => exact .running alike
    | fail alike =>
      simp only [Step.ofEffect, moves.frameSize_eq]
      exact ofFailure_alike alike
    | accept groups =>
      simp only [Step.ofEffect, moves.slotCount_eq, groups]
      exact .ended _ _ _

/-- Threads that are alike, and at instructions that do the same, step to threads that are alike,
or to the same end. -/
theorem step_alike (subject : Array α) (limit : StackLimit) (moves : program.Moves other places)
    (alike : Memory.Alike program.frameSize places endCounts memory otherMemory)
    (paired : program.Paired other places endCounts pc otherPc) (position : Nat) :
    Step.Alike program.frameSize places endCounts
      (step program subject limit ⟨pc, position, memory⟩)
      (step other subject limit ⟨otherPc, position, otherMemory⟩) := by
  obtain ⟨fetched, otherFetched, resolved, next, asksEnd⟩ := paired
  rw [step_of_fetch fetched, step_of_fetch otherFetched]
  exact ofEffect_alike moves (execute_alike moves alike fetched resolved next asksEnd)

/-- Threads that are alike end alike if all offsets that belong together have instructions that do
the same. -/
theorem run_alike (moves : program.Moves other places)
    (paired : ∀ pc otherPc, places pc otherPc → program.Paired other places endCounts pc otherPc)
    {thread otherThread : Thread}
    (alike : Thread.Alike program.frameSize places endCounts thread otherThread) (budget : Nat) :
    (otherThread.run other subject limit budget).map Prod.fst =
      (thread.run program subject limit budget).map Prod.fst := by
  induction budget generalizing thread otherThread with
  | zero => rfl
  | succ budget inductionHypothesis =>
    obtain @⟨pc, otherPc, position, memory, otherMemory, placed, alike⟩ := alike
    rw [run_succ, run_succ]
    have steps := step_alike subject limit moves alike (paired pc otherPc placed) position
    generalize step program subject limit ⟨pc, position, memory⟩ = result at steps ⊢
    generalize step other subject limit ⟨otherPc, position, otherMemory⟩ = otherResult at steps ⊢
    cases steps with
    | running alike => exact inductionHypothesis alike
    | ended => rfl

end Thread

end RegexMachine
