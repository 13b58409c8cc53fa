import RegexMachine.CodeUnit
import RegexMachine.LetterCase
import RegexMachine.Memory
import RegexMachine.Program

/-!
# Threads

What one instruction does to the thread that executes it, and the step of the machine made of
it: a thread goes on, or fails and the newest frame is resumed, or the attempt ends.
-/

namespace RegexMachine

variable {α : Type} [CodeUnit α]

namespace Anchor

/-- Whether a word unit stands at a position. -/
def isWordAt (subject : Array α) (position : Nat) : Bool :=
  match unitAt? subject position with
  | none => false
  | some unit => CodeUnit.isWord unit

/-- Whether a word unit stands before a position. -/
def isWordBefore (subject : Array α) (position : Nat) : Bool :=
  0 < position && isWordAt subject (position - 1)

/-- Whether the unit at a position ends a line. There has to be one. -/
def endsLine (subject : Array α) (position : Nat) : Except Stop Bool :=
  match unitAt? subject position with
  | none => .error (.fault .noSuchUnit)
  | some unit => .ok (CodeUnit.isLineTerminator unit)

/-- Whether an anchor holds at a position. -/
def holds (subject : Array α) (position : Nat) : Anchor → Except Stop Bool
  | .bob => .ok (position == 0)
  | .eob => .ok (position == subject.size)
  | .bol => if position = 0 then .ok true else endsLine subject (position - 1)
  | .eol => if position = subject.size then .ok true else endsLine subject position
  | .wordBoundary => .ok (isWordBefore subject position != isWordAt subject position)
  | .notWordBoundary => .ok (isWordBefore subject position == isWordAt subject position)

end Anchor

/-- Where a text begins and ends. -/
structure Span where
  start : Nat
  stop : Nat
  deriving DecidableEq, Repr

/-- The text of a group, if both its ends are set and in order. A group that the program does
not have is never set. -/
def Memory.group? (memory : Memory) (captures group : Nat) : Except Stop (Option Span) :=
  if captures ≤ group then .ok none
  else
    match memory.read (2 * group), memory.read (2 * group + 1) with
    | .ok start, .ok stop =>
      if start = unset ∨ stop = unset ∨ stop < start then .ok none
      else .ok (some ⟨start.toNat, stop.toNat⟩)
    | .error stop, _ => .error stop
    | _, .error stop => .error stop

/-- Whether two units count as the same: equal, or with letter case ignored equal to a case
form of the second. -/
def sameUnit (ignoreCase : Bool) (unit target : UInt16) : Bool :=
  if ignoreCase then LetterCase.isVariant unit target else unit == target

/-- Whether the subject at a position begins with the units of a literal. -/
def literalAt (ignoreCase : Bool) (subject : Array α) (position : Nat) : List UInt16 → Bool
  | [] => true
  | target :: later =>
    match unitAt? subject position with
    | none => false
    | some unit =>
      sameUnit ignoreCase unit target && literalAt ignoreCase subject (position + 1) later

/-- Whether the subject at a position repeats the units from another position on, over a
length. -/
def repeatsAt (ignoreCase : Bool) (subject : Array α) (position earlier : Nat) : Nat → Bool
  | 0 => true
  | length + 1 =>
    match unitAt? subject position, unitAt? subject earlier with
    | some unit, some target =>
      sameUnit ignoreCase unit target &&
        repeatsAt ignoreCase subject (position + 1) (earlier + 1) length
    | _, _ => false

/-- What an instruction does to the thread that executes it. -/
inductive Effect where
  /-- The thread goes on. -/
  | proceed (thread : Thread)
  /-- The thread fails. -/
  | fail (memory : Memory)
  /-- The program reports a match. -/
  | accept (memory : Memory)
  deriving DecidableEq, Repr

namespace Effect

/-- A thread goes on at an offset and a position, with memory that an operation on it gave. -/
def withMemory (pc position : Nat) : Except Stop Memory → Except Stop Effect
  | .error stop => .error stop
  | .ok memory => .ok (.proceed ⟨pc, position, memory⟩)

/-- A thread consumes units and goes on at an offset if a test was passed, and fails
otherwise. -/
def consumeIf (passed : Bool) (pc position units : Nat) (memory : Memory) : Effect :=
  if passed then .proceed ⟨pc, position + units, memory⟩ else .fail memory

end Effect

namespace Thread

/-- Whether the unit at a position is there and passes a test. -/
def unitPasses (subject : Array α) (position : Nat) (test : UInt16 → Bool) : Bool :=
  match unitAt? subject position with
  | none => false
  | some unit => test unit

/-- The effect of checking one unit. -/
def checkUnit (subject : Array α) (test : UInt16 → Bool) (next : Nat) (thread : Thread) :
    Effect :=
  .consumeIf (unitPasses subject thread.position test) next thread.position 1 thread.memory

/-- The effect of a match: the end of group 0 is the position. -/
def accept (thread : Thread) : Except Stop Effect :=
  match toCell thread.position with
  | .error stop => .error stop
  | .ok matchEnd =>
    match thread.memory.write 1 matchEnd with
    | .error stop => .error stop
    | .ok memory => .ok (.accept memory)

/-- The effect of consuming the text of a group again. A group that is not set has the empty
text. -/
def backReference (captures : Nat) (subject : Array α) (group : Nat) (ignoreCase : Bool)
    (next : Nat) (thread : Thread) : Except Stop Effect :=
  match thread.memory.group? captures group with
  | .error stop => .error stop
  | .ok none => .ok (.proceed ⟨next, thread.position, thread.memory⟩)
  | .ok (some text) =>
    let length := text.stop - text.start
    if subject.size < thread.position then .error (.fault .noSuchUnit)
    else if subject.size - thread.position < length then .ok (.fail thread.memory)
    else if subject.size < text.stop then .error (.fault .noSuchUnit)
    else
      .ok (.consumeIf (repeatsAt ignoreCase subject thread.position text.start length) next
        thread.position length thread.memory)

/-- The effect of consuming a literal. -/
def literal (ignoreCase : Bool) (subject : Array α) (units : List UInt16) (next : Nat)
    (thread : Thread) : Except Stop Effect :=
  if subject.size < thread.position then .error (.fault .noSuchUnit)
  else
    .ok (.consumeIf (literalAt ignoreCase subject thread.position units) next thread.position
      units.length thread.memory)

/-- The effect of testing an anchor. -/
def test (anchor : Anchor) (subject : Array α) (next : Nat) (thread : Thread) :
    Except Stop Effect :=
  match anchor.holds subject thread.position with
  | .error stop => .error stop
  | .ok held => .ok (.consumeIf held next thread.position 0 thread.memory)

/-- The effect of saving a number in a cell. -/
def save (number cell next : Nat) (thread : Thread) : Except Stop Effect :=
  match toCell number with
  | .error stop => .error stop
  | .ok content => Effect.withMemory next thread.position (thread.memory.write cell content)

/-- The effect of opening a group: it begins at the position, and its end is not set. -/
def openGroup (group next : Nat) (thread : Thread) : Except Stop Effect :=
  match toCell thread.position with
  | .error stop => .error stop
  | .ok groupStart =>
    match thread.memory.write (2 * group) groupStart with
    | .error stop => .error stop
    | .ok memory => Effect.withMemory next thread.position (memory.write (2 * group + 1) unset)

/-- The effect of requiring that the position is not the one saved in a cell. -/
def requireMoved (cell next : Nat) (thread : Thread) : Except Stop Effect :=
  match thread.memory.read cell with
  | .error stop => .error stop
  | .ok saved =>
    match toCell thread.position with
    | .error stop => .error stop
    | .ok here => .ok (.consumeIf (saved != here) next thread.position 0 thread.memory)

/-- The effect of counting one up in a cell, never past the largest number a slot holds. -/
def count (cell max target next : Nat) (thread : Thread) : Except Stop Effect :=
  match thread.memory.read cell with
  | .error stop => .error stop
  | .ok before =>
    let counter := min (before + 1) (maxSlot : Int)
    Effect.withMemory (if counter < max then target else next) thread.position
      (thread.memory.write cell counter)

/-- The effect of a look-around body that matched: the stack is cut to the depth in a cell,
and the thread goes back to the position in the frame found there. -/
def leaveLookaround (size cell target : Nat) (thread : Thread) : Except Stop Effect :=
  match thread.memory.read cell with
  | .error stop => .error stop
  | .ok depth =>
    match Memory.frameStart size depth with
    | .error stop => .error stop
    | .ok start =>
      match thread.memory.framePosition start with
      | .error stop => .error stop
      | .ok position => .ok (.proceed ⟨target, position, thread.memory.cut start⟩)

/-- The effect of a negative look-around body that matched: the stack is cut to the depth in a
cell, and the thread fails. -/
def failLookaround (size cell : Nat) (thread : Thread) : Except Stop Effect :=
  match thread.memory.read cell with
  | .error stop => .error stop
  | .ok depth =>
    match Memory.frameStart size depth with
    | .error stop => .error stop
    | .ok start => .ok (.fail (thread.memory.cut start))

/-- The effect of an instruction, with a stack that grows as far as `limit` says. -/
def execute (program : Program) (subject : Array α) (limit : StackLimit)
    (instruction : Instruction UInt32) (thread : Thread) : Except Stop Effect :=
  let size := program.frameSize
  let scratch := program.slotCount
  let next := thread.pc + instruction.length
  match instruction with
  | .storeSp slot =>
    thread.save (thread.memory.depth size) (scratch + slot.toNat) next
  | .storePosition slot => thread.save thread.position (scratch + slot.toNat) next
  | .positionTest slot => thread.requireMoved (scratch + slot.toNat) next
  | .assertionSuccess slot target =>
    thread.leaveLookaround size (scratch + slot.toNat) target.toNat
  | .assertionFailure slot => thread.failLookaround size (scratch + slot.toNat)
  | .assertion anchor => thread.test anchor subject next
  | .startCapture group => thread.openGroup group.toNat next
  | .endCapture group => thread.save thread.position (2 * group.toNat + 1) next
  | .clearCaptures first stop =>
    Effect.withMemory next thread.position
      (thread.memory.clear (2 * first.toNat) (2 * stop.toNat))
  | .counterZero slot => thread.save 0 (scratch + slot.toNat) next
  | .counterNext slot max target =>
    thread.count (scratch + slot.toNat) max.toNat target.toNat next
  | .pushBacktrack target =>
    Effect.withMemory next thread.position
      (thread.memory.push size limit thread.position target.toNat)
  | .backReference group ignoreCase =>
    thread.backReference program.captures subject group.toNat ignoreCase next
  | .checkByte unit => .ok (thread.checkUnit subject (· == unit.toUInt16) next)
  | .checkUnit unit => .ok (thread.checkUnit subject (· == unit) next)
  | .checkAny units => .ok (thread.checkUnit subject (fun unit => units.contains unit) next)
  | .checkRange ranges _ inverted =>
    .ok (thread.checkUnit subject
      (fun unit => UnitRange.anyHolds ranges unit != inverted) next)
  | .checkLiteral units => thread.literal program.ignoreCase subject units next
  | .jump target => .ok (.proceed ⟨target.toNat, thread.position, thread.memory⟩)
  | .failure => .ok (.fail thread.memory)
  | .success => thread.accept

end Thread

end RegexMachine
