import RegexMachine.Attempt
import RegexMachine.Proofs.ControlFlow
import RegexMachine.Proofs.FrameStack

/-!
# What the memory of an attempt holds

`Memory.Sound` is the invariant of the memory of an attempt on a subject of `units` units that
began at `start`. Cells hold numbers of a slot or are unset, the ends of groups lie between the
start and the end of the subject, and the stack is made of whole frames, each with a position
to go back to and the offset of an instruction to resume at. Every operation of the memory
keeps it.
-/

namespace RegexMachine

/-- The contents that a cell may have. A cell for the end of a group has a position between the
start of the attempt and the end of the subject, or is unset. -/
structure CellSound (program : Program) (units start cell : Nat) (content : Int) : Prop where
  atLeast : unset ≤ content
  atMost : content ≤ maxSlot
  inSubject : cell < program.slotCount → content = unset ∨ (start : Int) ≤ content ∧ content ≤ units

/-- The cells that a state may have. -/
structure CellsSound (program : Program) (units start : Nat) (cells : Array Int) : Prop where
  sized : cells.size = program.frameSize
  sound : ∀ cell content, cells[cell]? = some content →
    CellSound program units start cell content

/-- A state with a position to go back to and the offset of an instruction to resume at. -/
structure FrameSound (program : Program) (units start : Nat) (frame : Array Int) : Prop where
  cells : CellsSound program units start frame
  position : ∃ position : Nat, frame[1]? = some (position : Int) ∧
    start ≤ position ∧ position ≤ units
  resume : ∃ resume : Nat, frame[program.frameSize - 1]? = some (resume : Int) ∧
    ∃ instruction, program.fetch resume = some instruction

/-- A state and a stack of whole frames, no more than the ceiling allows. -/
structure Memory.Sound (program : Program) (units : Nat) (limit : StackLimit) (start : Nat)
    (memory : Memory) : Prop where
  state : CellsSound program units start memory.state
  stack : ∃ frames, Stacked program.frameSize memory.stack frames ∧ frames.length ≤ limit.frames ∧
    ∀ frame ∈ frames, FrameSound program units start frame

/-- A thread at an instruction and at a position between the start of the attempt and the end of
the subject. -/
structure Thread.Sound (program : Program) (units : Nat) (limit : StackLimit) (start : Nat)
    (thread : Thread) : Prop where
  fetched : ∃ instruction, program.fetch thread.pc = some instruction
  started : start ≤ thread.position
  within : thread.position ≤ units
  memory : thread.memory.Sound program units limit start

variable {program : Program} {units : Nat} {limit : StackLimit} {start : Nat}

namespace CellSound

/-- Every cell may be unset. -/
theorem unset (cell : Nat) : CellSound program units start cell unset where
  atLeast := Int.le_refl _
  atMost := by decide
  inSubject _ := .inl rfl

/-- Every cell may hold a position from the start on. -/
theorem position (unitsFit : units ≤ maxSlot) (cell : Nat) {position : Nat}
    (started : start ≤ position) (within : position ≤ units) :
    CellSound program units start cell position where
  atLeast := by
    unfold RegexMachine.unset
    omega
  atMost := by omega
  inSubject _ := .inr ⟨by omega, by omega⟩

/-- A cell behind the groups may hold any number of a slot. -/
theorem number {cell : Nat} {content : Int} (behind : program.slotCount ≤ cell)
    (positive : 0 ≤ content) (fits : content ≤ maxSlot) :
    CellSound program units start cell content where
  atLeast := by
    unfold RegexMachine.unset
    omega
  atMost := fits
  inSubject inGroups := by omega

end CellSound

namespace CellsSound

variable {cells : Array Int}

/-- A cell may be set to what it may hold. -/
theorem set (sound : CellsSound program units start cells) {cell : Nat} {content : Int}
    (contentSound : CellSound program units start cell content) :
    CellsSound program units start (cells.setIfInBounds cell content) where
  sized := by rw [Array.size_setIfInBounds, sound.sized]
  sound := by
    intro other found read
    rw [Array.getElem?_setIfInBounds] at read
    split at read
    · rename_i same
      subst same
      split at read
      · obtain rfl := Option.some.inj read
        exact contentSound
      · contradiction
    · exact sound.sound other found read

/-- Cells may be unset. -/
theorem unsetCells (sound : CellsSound program units start cells) (first count : Nat) :
    CellsSound program units start (Memory.unsetCells cells first count) where
  sized := by rw [Memory.size_unsetCells, sound.sized]
  sound := by
    intro cell content read
    rw [Memory.getElem?_unsetCells] at read
    split at read
    · obtain rfl := Option.some.inj read
      exact .unset cell
    · exact sound.sound cell content read

/-- The state that an attempt begins with. -/
theorem initial (unitsFit : units ≤ maxSlot) (within : start ≤ units) :
    CellsSound program units start
      ((Array.replicate program.frameSize RegexMachine.unset).setIfInBounds 0 (start : Int)) := by
  refine set ⟨Array.size_replicate, ?_⟩ (.position unitsFit 0 (Nat.le_refl start) within)
  intro cell content read
  rw [Array.getElem?_replicate] at read
  split at read
  · obtain rfl := Option.some.inj read
    exact .unset cell
  · contradiction

/-- No content is below that of an unset cell. -/
theorem atLeast (sound : CellsSound program units start cells) :
    ∀ content ∈ cells, RegexMachine.unset ≤ content := by
  intro content member
  obtain ⟨cell, read⟩ := Array.mem_iff_getElem?.mp member
  exact (sound.sound cell content read).atLeast

/-- A frame is a state, with a position and the offset of an instruction. -/
theorem frame (sound : CellsSound program units start cells)
    (unitsFit : units ≤ maxSlot) {position resume : Nat} (resumeFits : resume ≤ maxSlot)
    (started : start ≤ position) (within : position ≤ units)
    (fetched : ∃ instruction, program.fetch resume = some instruction) :
    FrameSound program units start
      (Memory.frame program.frameSize position resume cells) where
  cells := by
    have behind : program.slotCount ≤ program.frameSize - 1 := by
      unfold Program.frameSize
      omega
    exact (sound.set (.position unitsFit 1 started within)).set
      (.number behind (by omega) (by omega))
  position := by
    refine ⟨position, ?_, started, within⟩
    have large := program.two_lt_frameSize
    rw [Memory.getElem?_frame sound.sized large, if_neg (by omega), if_pos rfl]
  resume := by
    refine ⟨resume, ?_, fetched⟩
    rw [Memory.getElem?_frame sound.sized program.two_lt_frameSize, if_pos rfl]

end CellsSound

namespace Memory.Sound

variable {memory : Memory}

/-- The number of frames is the depth of the stack. -/
theorem depth_le (sound : memory.Sound program units limit start) :
    memory.depth program.frameSize ≤ limit.frames := by
  obtain ⟨frames, stacked, few, _⟩ := sound.stack
  rw [depth_eq stacked program.frameSize_pos]
  exact few

/-- Setting a cell to what it may hold. -/
theorem set (sound : memory.Sound program units limit start) {cell : Nat} {content : Int}
    (contentSound : CellSound program units start cell content) :
    ({ memory with state := memory.state.setIfInBounds cell content } : Memory).Sound
      program units limit start :=
  ⟨sound.state.set contentSound, sound.stack⟩

/-- Unsetting cells. -/
theorem clear (sound : memory.Sound program units limit start) (first count : Nat) :
    ({ memory with state := unsetCells memory.state first count } : Memory).Sound
      program units limit start :=
  ⟨sound.state.unsetCells first count, sound.stack⟩

/-- Pushing a frame that nothing refuses. -/
theorem push (sound : memory.Sound program units limit start)
    (unitsFit : units ≤ maxSlot) {position resume : Nat} (resumeFits : resume ≤ maxSlot)
    (room : memory.refusal? program.frameSize limit = none) (started : start ≤ position)
    (within : position ≤ units)
    (fetched : ∃ instruction, program.fetch resume = some instruction) :
    (memory.pushed program.frameSize position resume).Sound program units limit start := by
  refine ⟨sound.state, ?_⟩
  obtain ⟨frames, stacked, few, framesSound⟩ := sound.stack
  have free := (refusal?_eq_none_iff.mp room).1
  rw [depth_eq stacked program.frameSize_pos] at free
  refine ⟨_, stacked_pushed stacked sound.state.sized _ _, free, ?_⟩
  intro frame member
  rcases List.mem_cons.mp member with rfl | older
  · exact sound.state.frame unitsFit resumeFits started within fetched
  · exact framesSound frame older

/-- Cutting the stack at a frame boundary. -/
theorem cut (sound : memory.Sound program units limit start) (depth : Nat) :
    (memory.cut (depth * program.frameSize)).Sound program units limit start := by
  refine ⟨sound.state, ?_⟩
  obtain ⟨frames, stacked, few, framesSound⟩ := sound.stack
  refine ⟨_, stacked.cut depth, ?_, ?_⟩
  · rw [List.length_drop]
    omega
  · exact fun frame member => framesSound frame (List.mem_of_mem_drop member)

/-- A frame within the depth of the stack has a position to go back to. -/
theorem exists_framePosition (sound : memory.Sound program units limit start) {depth : Nat}
    (within : depth < memory.depth program.frameSize) :
    ∃ position, memory.framePosition (depth * program.frameSize) = .ok position ∧
      start ≤ position ∧ position ≤ units := by
  obtain ⟨frames, stacked, _, framesSound⟩ := sound.stack
  have large := program.two_lt_frameSize
  rw [depth_eq stacked (by omega)] at within
  obtain ⟨frame, member, same⟩ := stacked.exists_position (by omega) within
  obtain ⟨position, read, started, inSubject⟩ := (framesSound frame member).position
  refine ⟨position, ?_, started, inSubject⟩
  rw [framePosition, same, read]
  rfl

/-- No frame stands beyond the depth of the stack. -/
theorem framePosition_eq_error (sound : memory.Sound program units limit start) {depth : Nat}
    (beyond : memory.depth program.frameSize ≤ depth) :
    memory.framePosition (depth * program.frameSize) = .error (.fault .noSuchFrame) := by
  obtain ⟨frames, stacked, _, _⟩ := sound.stack
  rw [depth_eq stacked program.frameSize_pos] at beyond
  rw [framePosition, stacked.position_eq_none beyond]

/-- The thread that the newest frame resumes. -/
theorem resumed (sound : memory.Sound program units limit start)
    (present : memory.hasFrame program.frameSize = true) :
    (memory.resumed program.frameSize).Sound program units limit start := by
  have large := program.two_lt_frameSize
  obtain ⟨frames, stacked, few, framesSound⟩ := sound.stack
  obtain ⟨state, stack⟩ := memory
  simp only at stacked
  cases stacked with
  | empty =>
    rw [hasFrame_nil (by omega)] at present
    contradiction
  | @push older frame frames below sized =>
    have newest := framesSound frame List.mem_cons_self
    obtain ⟨position, readPosition, started, within⟩ := newest.position
    obtain ⟨resume, readResume, fetched⟩ := newest.resume
    rw [(resumed_append sized).2, readPosition, readResume]
    refine ⟨fetched, started, within, newest.cells, frames, below, ?_, ?_⟩
    · rw [List.length_cons] at few
      omega
    · exact fun frame member => framesSound frame (List.mem_cons_of_mem _ member)

end Memory.Sound

end RegexMachine
