import RegexMachine.LetterCase
import RegexMachine.Program

/-!
# The leading units of a program

A filter read off the front of a program. Instructions that neither consume nor branch are
passed over, and the first one that consumes tells which units a match can start with. A
program whose front branches, jumps or looks elsewhere has no such filter.
-/

namespace RegexMachine

namespace Filter

/-- The filter of a range table. -/
def ofRanges? : List UnitRange → Option Filter
  | [] => none
  | range :: others =>
    let first : Filter :=
      if range.first == range.last then .one range.first
      else .mask (rangeMask range.first range.last)
    some (others.foldl (fun filter range => filter.withRange range.first range.last) first)

end Filter

namespace Instruction

/-- Whether an instruction lets the run continue in place without looking at a unit that it
would consume. -/
def isPassedOver {Target : Type} : Instruction Target → Bool
  | .startCapture _ | .endCapture _ | .clearCaptures .. => true
  | .counterZero _ | .storePosition _ | .assertion _ => true
  | _ => false

/-- The filter of an instruction that consumes. -/
def unitFilter? {Target : Type} (ignoreCase : Bool) : Instruction Target → Option Filter
  | .checkByte unit => some (.one unit.toUInt16)
  | .checkUnit unit => some (.one unit)
  | .checkAny units => Filter.ofUnits? units
  | .checkRange ranges _ false => Filter.ofRanges? ranges
  | .checkLiteral (unit :: _) =>
    if ignoreCase then
      Filter.ofUnits? [unit, LetterCase.upper unit, LetterCase.lower unit]
    else some (.one unit)
  | _ => none

/-- The filter of a sequence of instructions. -/
def leadingFilter? {Target : Type} (ignoreCase : Bool) :
    List (Instruction Target) → Option Filter
  | [] => none
  | instruction :: later =>
    if instruction.isPassedOver then leadingFilter? ignoreCase later
    else instruction.unitFilter? ignoreCase

end Instruction

namespace Program

/-- The filter that the front of a program admits. -/
def leadingFilter? (program : Program) : Option Filter :=
  Instruction.leadingFilter? program.ignoreCase (program.entries.map Located.instruction)

end Program

end RegexMachine
