import RegexMachine.Error
import RegexMachine.Limits

/-!
# Memory

The memory of a run: the state, one cell for each end of a group, each scratch slot and the
resume offset, and the stack of frames, which are copies of the state laid out back to back in
one array. In a frame the cell 1 holds the position to go back to and the last cell the
offset to resume at. Operations on the stack take the size of a frame, because the array does
not mark where its frames begin.
-/

namespace RegexMachine

/-- Why a run breaks off without an answer. -/
inductive Fault where
  /-- The ends of the groups or the cells of a frame can not be counted, or are more than one
  array holds. -/
  | frameTooLarge
  /-- The caller's buffer holds fewer cells than the groups of the program need. -/
  | bufferTooShort (held needed : Nat)
  /-- The positions of the subject exceed what a slot holds. -/
  | subjectTooLong
  /-- A number exceeds what a slot holds. -/
  | slotOverflow
  /-- The state has no such cell. -/
  | noSuchCell
  /-- The subject has no such unit. -/
  | noSuchUnit
  /-- No frame can be at this depth, or none is. -/
  | noSuchFrame
  /-- No instruction stands at this offset. -/
  | noSuchInstruction
  deriving DecidableEq, Repr

namespace Fault

/-- The sentence that goes with a fault, for the fault that has one. -/
def message? : Fault → Option String
  | .bufferTooShort held needed =>
    some ("capture buffer holds " ++ toString held ++ " slots, program needs " ++
      toString needed)
  | _ => none

end Fault

/-- Why a run ends before its program does. -/
inductive Stop where
  | error (error : RunError)
  | fault (fault : Fault)
  deriving DecidableEq, Repr

/-- The content of a cell that has not been set. -/
def unset : Int := -1

/-- The content of the cell for a number, if the number fits. -/
def toCell (number : Nat) : Except Stop Int :=
  if number ≤ maxSlot then .ok number else .error (.fault .slotOverflow)

/-- The state and the stack of a run. -/
structure Memory where
  state : Array Int
  stack : Array Int
  deriving DecidableEq, Repr

namespace Memory

/-- No state and no stack. -/
def empty : Memory :=
  ⟨#[], #[]⟩

/-- The memory at the beginning of an attempt: every cell unset but the first, which holds the
start, and no frames. -/
def reset (size start : Nat) (memory : Memory) : Except Stop Memory :=
  match toCell start with
  | .error stop => .error stop
  | .ok cell =>
    .ok ⟨(Array.replicate size unset).setIfInBounds 0 cell, memory.stack.shrink 0⟩

/-- The content of a cell of the state. -/
def read (memory : Memory) (cell : Nat) : Except Stop Int :=
  match memory.state[cell]? with
  | none => .error (.fault .noSuchCell)
  | some content => .ok content

/-- The memory with a cell of the state set. -/
def write (memory : Memory) (cell : Nat) (content : Int) : Except Stop Memory :=
  if cell < memory.state.size then
    .ok { memory with state := memory.state.setIfInBounds cell content }
  else .error (.fault .noSuchCell)

/-- The state with a number of cells unset, from a cell on. -/
def unsetCells (state : Array Int) (cell : Nat) : Nat → Array Int
  | 0 => state
  | count + 1 => unsetCells (state.setIfInBounds cell unset) (cell + 1) count

/-- The memory with the cells of the state from `first` up to, not including, `stop` unset. -/
def clear (memory : Memory) (first stop : Nat) : Except Stop Memory :=
  if first ≤ stop ∧ stop ≤ memory.state.size then
    .ok { memory with state := unsetCells memory.state first (stop - first) }
  else .error (.fault .noSuchCell)

/-- The number of frames on the stack. -/
def depth (size : Nat) (memory : Memory) : Nat :=
  memory.stack.size / size

/-- Why a frame can not be pushed: the stack is at its ceiling, or there is no memory for one
more frame. The ceiling is judged first. -/
def refusal? (size : Nat) (limit : StackLimit) (memory : Memory) : Option RunError :=
  if limit.frames < memory.depth size + 1 then some .stackOverflow
  else if limit.cells < memory.stack.size + size then some .outOfMemory
  else none

/-- The memory with a copy of the state pushed, to go back to a position and resume at an
offset. -/
def push (size : Nat) (limit : StackLimit) (position resume : Nat) (memory : Memory) :
    Except Stop Memory :=
  match memory.refusal? size limit with
  | some error => .error (.error error)
  | none =>
    match toCell position, toCell resume with
    | .ok positionCell, .ok resumeCell =>
      let top := memory.stack.size
      .ok { memory with
        stack :=
          ((memory.stack ++ memory.state).setIfInBounds (top + 1) positionCell).setIfInBounds
            (top + size - 1) resumeCell }
    | .error stop, _ => .error stop
    | _, .error stop => .error stop

/-- The memory cut to the first cells of the stack. A stack that has no more is kept. -/
def cut (cells : Nat) (memory : Memory) : Memory :=
  { memory with stack := memory.stack.shrink cells }

/-- The first cell of the stack that belongs to the frame at a depth, if the cells up to there
can be counted. -/
def frameStart (size : Nat) (depth : Int) : Except Stop Nat :=
  if depth < 0 then .error (.fault .noSuchFrame)
  else if depth.toNat * size < cellLimit then .ok (depth.toNat * size)
  else .error (.fault .noSuchFrame)

/-- The position in the frame whose first cell is given. -/
def framePosition (start : Nat) (memory : Memory) : Except Stop Nat :=
  match memory.stack[start + 1]? with
  | none => .error (.fault .noSuchFrame)
  | some position => .ok position.toNat

end Memory

/-- A running thread: the offset of its next instruction, its position in the subject and the
memory. -/
structure Thread where
  pc : Nat
  position : Nat
  memory : Memory
  deriving DecidableEq, Repr

namespace Memory

/-- Whether the stack holds a frame. -/
def hasFrame (size : Nat) (memory : Memory) : Bool :=
  size ≤ memory.stack.size

/-- The thread that the newest frame of the stack resumes. Its state is the frame, and the
frame is gone. -/
def resumed (size : Nat) (memory : Memory) : Thread :=
  let top := memory.stack.size - size
  let frame := memory.stack.extract top memory.stack.size
  { pc := (frame[size - 1]?.getD unset).toNat
    position := (frame[1]?.getD unset).toNat
    memory := ⟨frame, memory.stack.shrink top⟩ }

/-- The thread that the newest frame of the stack resumes, if there is one. -/
def pop? (size : Nat) (memory : Memory) : Option Thread :=
  if memory.hasFrame size then some (memory.resumed size) else none

end Memory

end RegexMachine
