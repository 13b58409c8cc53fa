import RegexMachine.Disassembly
import RegexMachine.Limits

/-!
# Validation of programs

When a byte stream is a program, and which error it is refused with otherwise: no groups, no
bytes, the first instruction that does not decode or whose operands are out of range, a last
instruction that continues past the end, and at last the first target that is not the offset
of an instruction.
-/

namespace RegexMachine

namespace Instruction

/-- The scratch slot that an instruction reads or writes. -/
def slot? {Target : Type} : Instruction Target → Option UInt32
  | .storeSp slot => some slot
  | .storePosition slot => some slot
  | .positionTest slot => some slot
  | .assertionSuccess slot _ => some slot
  | .assertionFailure slot => some slot
  | .counterZero slot => some slot
  | .counterNext slot _ _ => some slot
  | _ => none

/-- Whether the groups an instruction writes are groups of the program. -/
def groupsFit {Target : Type} (captures : Nat) : Instruction Target → Bool
  | .startCapture group => group.toNat < captures
  | .endCapture group => group.toNat < captures
  | .clearCaptures first stop => first ≤ stop && stop.toNat ≤ captures
  | _ => true

/-- Whether the repeat bound of an instruction is within the reach of a counter. -/
def repeatFits {Target : Type} : Instruction Target → Bool
  | .counterNext _ max _ => max.toNat ≤ maxSlot
  | _ => true

/-- Whether the scratch slot of an instruction is a slot of the program. -/
def slotFits {Target : Type} (counters : Nat) (instruction : Instruction Target) : Bool :=
  match instruction.slot? with
  | none => true
  | some slot => slot.toNat < counters

/-- What is wrong with the operands of an instruction, its target apart. -/
def operandDefect? {Target : Type} (captures counters : Nat)
    (instruction : Instruction Target) : Option Defect :=
  if !instruction.groupsFit captures then some .invalidCapture
  else if !instruction.slotFits counters then some .invalidSlot
  else if !instruction.repeatFits then some .invalidRepeatMax
  else none

end Instruction

namespace Located

/-- What is wrong with the operands of an instruction at its offset. -/
def operandError? (captures counters : Nat) (entry : Located) : Option CodeError :=
  (entry.instruction.operandDefect? captures counters).map (.instruction entry.pc)

/-- What is wrong with the target of an instruction, when instructions stand exactly at the
offsets that `isStart` accepts. -/
def targetError? (isStart : Nat → Bool) (entry : Located) : Option CodeError :=
  match entry.instruction.target? with
  | none => none
  | some target =>
    if isStart target.toNat then none
    else some (.instruction entry.pc (.invalidTarget target.toNat))

end Located

/-- The instructions by their offset: the entry of an offset inside an instruction is empty. -/
abbrev OffsetIndex := Array (Option (Instruction UInt32))

namespace OffsetIndex

/-- The index of instructions that stand one after the other. -/
def ofEntries (entries : List Located) : OffsetIndex :=
  (entries.flatMap fun entry =>
    some entry.instruction :: List.replicate (entry.instruction.length - 1) none).toArray

/-- The instruction at an offset. -/
def at? (index : OffsetIndex) (pc : Nat) : Option (Instruction UInt32) :=
  index[pc]?.join

end OffsetIndex

namespace Program

/-- The error of a stream whose last instruction continues past its end. -/
def endError? (entries : List Located) : Option CodeError :=
  match entries.getLast? with
  | none => none
  | some last =>
    if last.instruction.fallsThrough then some (.instruction last.pc .fallsOffEnd) else none

/-- The first error of a stream with these entries, each kind of error judged over the whole
stream before the next. -/
def entriesError? (captures counters : Nat) (found : Disassembly) : Option CodeError :=
  (found.entries.findSome? (·.operandError? captures counters)).or <|
  found.problem.or <|
  (endError? found.entries).or <|
  let index := OffsetIndex.ofEntries found.entries
  found.entries.findSome? (·.targetError? fun target => (index.at? target).isSome)

/-- Why a stream is not a program with this many groups and scratch slots. -/
def error? (stream : List UInt8) (captures counters : Nat) : Option CodeError :=
  if captures = 0 then some .noCaptures
  else if stream.isEmpty then some .empty
  else entriesError? captures counters (Disassembly.ofStream 0 stream)

end Program

end RegexMachine
