import RegexMachine.Text

/-!
# Errors

What can be wrong with a program, and how a run can be refused. Every defect of a program
except the two global ones belongs to the instruction at a byte offset.
-/

namespace RegexMachine

/-- What is wrong with one instruction of a program. -/
inductive Defect where
  /-- No instruction has this tag. -/
  | unknownOpcode (tag : UInt8)
  /-- The stream ends before the instruction does. -/
  | truncated
  /-- A group operand is not a group of the program. -/
  | invalidCapture
  /-- A slot operand is not a scratch slot of the program. -/
  | invalidSlot
  /-- A repeat bound exceeds what a counter can reach. -/
  | invalidRepeatMax
  /-- A range table is not made of whole pairs. -/
  | invalidRangeTable
  /-- A literal has no units. -/
  | emptyLiteral
  /-- A jump target is not the offset of an instruction. -/
  | invalidTarget (target : Nat)
  /-- The last instruction can continue past the end. -/
  | fallsOffEnd
  /-- A branch refers to a label without a place. -/
  | unboundLabel
  deriving DecidableEq, Repr

/-- Why a program is refused. -/
inductive CodeError where
  /-- Group 0 is always needed. -/
  | noCaptures
  /-- There are no instructions. -/
  | empty
  /-- The instruction at the offset `pc` has a defect. -/
  | instruction (pc : Nat) (defect : Defect)
  deriving DecidableEq, Repr

/-- Why a run is given up. -/
inductive RunError where
  /-- The stack could not be allocated. -/
  | outOfMemory
  /-- The stack reached its ceiling. -/
  | stackOverflow
  deriving DecidableEq, Repr

/-- A failure to build or to run a program. -/
inductive Error where
  | code (error : CodeError)
  | run (error : RunError)
  deriving DecidableEq, Repr

namespace Defect

/-- The name of the kind of defect. -/
def name : Defect → String
  | .unknownOpcode _ => "UnknownOpcode"
  | .truncated => "Truncated"
  | .invalidCapture => "InvalidCapture"
  | .invalidSlot => "InvalidSlot"
  | .invalidRepeatMax => "InvalidRepeatMax"
  | .invalidRangeTable => "InvalidRangeTable"
  | .emptyLiteral => "EmptyLiteral"
  | .invalidTarget _ => "InvalidTarget"
  | .fallsOffEnd => "FallsOffEnd"
  | .unboundLabel => "UnboundLabel"

/-- A sentence on the defect of the instruction at an offset. -/
def message (pc : Nat) : Defect → String
  | .unknownOpcode tag => "Unknown opcode 0x" ++ Text.hexByte tag ++ " at " ++ toString pc
  | .truncated => "Instruction at " ++ toString pc ++ " is truncated"
  | .invalidCapture => "Instruction at " ++ toString pc ++ " refers to a nonexistent group"
  | .invalidSlot => "Instruction at " ++ toString pc ++ " refers to a nonexistent counter slot"
  | .invalidRepeatMax => "Repeat bound of instruction at " ++ toString pc ++ " is out of range"
  | .invalidRangeTable => "Range table of instruction at " ++ toString pc ++ " is malformed"
  | .emptyLiteral => "Literal at " ++ toString pc ++ " has no characters"
  | .invalidTarget target =>
    "Instruction at " ++ toString pc ++ " jumps to " ++ toString target ++
      ", which is not an instruction"
  | .fallsOffEnd => "Last instruction at " ++ toString pc ++ " falls through the end"
  | .unboundLabel => "Label " ++ toString pc ++ " was never bound"

/-- The defect of the instruction at an offset, spelled as a value. -/
def spelled (pc : Nat) (defect : Defect) : String :=
  match defect with
  | .unknownOpcode tag =>
    Text.labelled defect.name [("pc", toString pc), ("tag", toString tag.toNat)]
  | .invalidTarget target =>
    Text.labelled defect.name [("pc", toString pc), ("target", toString target)]
  | _ => Text.applied defect.name (toString pc)

end Defect

namespace CodeError

/-- The name of the kind of error. -/
def name : CodeError → String
  | .noCaptures => "NoCaptures"
  | .empty => "Empty"
  | .instruction _ defect => defect.name

/-- A sentence on why the program is refused. -/
def message : CodeError → String
  | .noCaptures => "Program must declare at least one capture group"
  | .empty => "Program has no instructions"
  | .instruction pc defect => defect.message pc

/-- The error spelled as a value. -/
def spelled : CodeError → String
  | .instruction pc defect => defect.spelled pc
  | error => error.name

end CodeError

namespace RunError

/-- The name of the kind of error. -/
def name : RunError → String
  | .outOfMemory => "OutOfMemory"
  | .stackOverflow => "StackOverflow"

/-- A sentence on why the run is given up. -/
def message : RunError → String
  | .outOfMemory => "Out of memory while growing the backtrack stack"
  | .stackOverflow => "Max stack size exceeded for backtracking"

end RunError

namespace Error

/-- The name of the kind of error. -/
def name : Error → String
  | .code error => error.name
  | .run error => error.name

/-- A sentence on the failure, headed by the stage that failed. -/
def message : Error → String
  | .code error => "Invalid bytecode: " ++ error.message
  | .run error => "Error executing program: " ++ error.message

/-- The error spelled as a value. -/
def spelled : Error → String
  | .code error => Text.applied "CodeError" error.spelled
  | .run error => Text.applied "RuntimeError" error.name

end Error

end RegexMachine
