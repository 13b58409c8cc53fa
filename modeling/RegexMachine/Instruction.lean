/-!
# Instructions

The instruction set of the machine, over the type of its jump targets: byte offsets in a
finished program, labels in one that is still being assembled.
-/

namespace RegexMachine

/-- A test on the surroundings of a position. It consumes nothing. -/
inductive Anchor where
  /-- The beginning of the subject. -/
  | bob
  /-- The end of the subject. -/
  | eob
  /-- The beginning of a line. -/
  | bol
  /-- The end of a line. -/
  | eol
  /-- A word unit on exactly one side. -/
  | wordBoundary
  /-- A word unit on both sides or on neither. -/
  | notWordBoundary
  deriving DecidableEq, Repr

/-- The units from `first` to `last`, both included. -/
structure UnitRange where
  first : UInt16
  last : UInt16
  deriving DecidableEq, Repr

namespace UnitRange

/-- Whether a table of ranges holds a unit. The table is meant to be ascending: the search ends
at the first range that starts above the unit. -/
def anyHolds : List UnitRange → UInt16 → Bool
  | [], _ => false
  | range :: later, unit =>
    if unit < range.first then false
    else if unit ≤ range.last then true
    else anyHolds later unit

end UnitRange

/-- One instruction, with jump targets of type `Target`. -/
inductive Instruction (Target : Type) where
  /-- Save the depth of the stack in a slot. -/
  | storeSp (slot : UInt32)
  /-- Save the position in a slot. -/
  | storePosition (slot : UInt32)
  /-- Fail if the position is the one saved in the slot. -/
  | positionTest (slot : UInt32)
  /-- The body of a look-around matched: cut the stack to the saved depth, go back to the
  position in the frame found there, and jump. -/
  | assertionSuccess (slot : UInt32) (target : Target)
  /-- The body of a negative look-around matched: cut the stack to the saved depth and fail. -/
  | assertionFailure (slot : UInt32)
  /-- Fail unless the anchor holds. -/
  | assertion (anchor : Anchor)
  /-- Set the start of a group and forget its end. -/
  | startCapture (group : UInt32)
  /-- Set the end of a group. -/
  | endCapture (group : UInt32)
  /-- Forget the groups from `first` up to, not including, `stop`. -/
  | clearCaptures (first stop : UInt32)
  /-- Set a counter to zero. -/
  | counterZero (slot : UInt32)
  /-- Count one up, and jump while the counter is below `max`. -/
  | counterNext (slot max : UInt32) (target : Target)
  /-- Push a frame that resumes at the target. -/
  | pushBacktrack (target : Target)
  /-- Consume the text of a group again. -/
  | backReference (group : UInt16) (ignoreCase : Bool)
  /-- Consume a unit below 256. -/
  | checkByte (unit : UInt8)
  /-- Consume a unit. -/
  | checkUnit (unit : UInt16)
  /-- Consume any of two to four units. -/
  | checkAny (units : List UInt16)
  /-- Consume a unit inside, or if inverted outside, the ranges. The table carries the number
  of units that its writer counted in it. -/
  | checkRange (ranges : List UnitRange) (count : UInt32) (inverted : Bool)
  /-- Consume a run of units. -/
  | checkLiteral (units : List UInt16)
  /-- Jump. -/
  | jump (target : Target)
  /-- Fail. -/
  | failure
  /-- Report a match. -/
  | success
  deriving DecidableEq, Repr

namespace Instruction

variable {Target Other : Type}

/-- Where an instruction can jump to. -/
def target? : Instruction Target → Option Target
  | .assertionSuccess _ target => some target
  | .counterNext _ _ target => some target
  | .pushBacktrack target => some target
  | .jump target => some target
  | _ => none

/-- Whether the run can continue with the instruction that follows. -/
def fallsThrough : Instruction Target → Bool
  | .assertionSuccess .. => false
  | .assertionFailure _ => false
  | .jump _ => false
  | .failure => false
  | .success => false
  | _ => true

/-- The number of bytes that an instruction is encoded in. -/
def length : Instruction Target → Nat
  | .storeSp _ | .storePosition _ | .positionTest _ | .assertionFailure _ => 5
  | .assertionSuccess .. => 9
  | .assertion _ => 1
  | .startCapture _ | .endCapture _ => 5
  | .clearCaptures .. => 9
  | .counterZero _ => 5
  | .counterNext .. => 13
  | .pushBacktrack _ => 5
  | .backReference .. => 3
  | .checkByte _ => 2
  | .checkUnit _ => 3
  | .checkAny units => 1 + 2 * units.length
  | .checkRange ranges _ _ => 9 + 4 * ranges.length
  | .checkLiteral units => 5 + 2 * units.length
  | .jump _ => 5
  | .failure | .success => 1

/-- The number of bytes that instructions take together. -/
def totalLength : List (Instruction Target) → Nat
  | [] => 0
  | instruction :: later => instruction.length + totalLength later

/-- Instructions that follow others take their bytes in addition. -/
@[simp] theorem totalLength_append (before after : List (Instruction Target)) :
    totalLength (before ++ after) = totalLength before + totalLength after := by
  induction before with
  | nil => simp [totalLength]
  | cons instruction before inductionHypothesis =>
    rw [List.cons_append, totalLength, totalLength, inductionHypothesis, Nat.add_assoc]

/-- An instruction with its target, if it has one, resolved by a function that may fail. -/
def resolve (place : Target → Option Other) : Instruction Target → Option (Instruction Other)
  | .assertionSuccess slot target => (place target).map (.assertionSuccess slot)
  | .counterNext slot max target => (place target).map (.counterNext slot max)
  | .pushBacktrack target => (place target).map .pushBacktrack
  | .jump target => (place target).map .jump
  | .storeSp slot => some (.storeSp slot)
  | .storePosition slot => some (.storePosition slot)
  | .positionTest slot => some (.positionTest slot)
  | .assertionFailure slot => some (.assertionFailure slot)
  | .assertion anchor => some (.assertion anchor)
  | .startCapture group => some (.startCapture group)
  | .endCapture group => some (.endCapture group)
  | .clearCaptures first stop => some (.clearCaptures first stop)
  | .counterZero slot => some (.counterZero slot)
  | .backReference group ignoreCase => some (.backReference group ignoreCase)
  | .checkByte unit => some (.checkByte unit)
  | .checkUnit unit => some (.checkUnit unit)
  | .checkAny units => some (.checkAny units)
  | .checkRange ranges count inverted => some (.checkRange ranges count inverted)
  | .checkLiteral units => some (.checkLiteral units)
  | .failure => some .failure
  | .success => some .success

end Instruction

end RegexMachine
