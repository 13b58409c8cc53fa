import RegexMachine.Assembler

/-!
# Symbolic assembly

The assembler with instructions in place of their bytes. A directive appends an instruction that
holds the label it branches to, and `finish` resolves the labels before it encodes anything. Every
call of the assembler is a directive (`Call.directive`), and both finish to the same program.
-/

namespace RegexMachine

/-- One step of building a program out of instructions. -/
inductive Directive where
  /-- Create a label. -/
  | newLabel
  /-- Bind a label to the offset of the next instruction. -/
  | bind (label : Label)
  /-- Make literals match up to letter case, or exactly. -/
  | ignoreCase (value : Bool)
  /-- Set the filter. -/
  | filter (value : Option Filter)
  /-- Derive the filter from the finished program, whatever filter was set. -/
  | deriveFilter (value : Bool)
  /-- Append an instruction. -/
  | emit (instruction : Instruction Label)
  /-- Append a check of one unit, in the shortest form that holds the unit. -/
  | emitUnit (unit : UInt16)
  /-- Append a check of a range table, with its units counted. -/
  | emitRanges (ranges : List UnitRange) (inverted : Bool)
  deriving DecidableEq, Repr

/-- The directive that a call of the assembler is. -/
def Call.directive : Call → Directive
  | .newLabel => .newLabel
  | .bind label => .bind label
  | .ignoreCase value => .ignoreCase value
  | .filter value => .filter value
  | .deriveFilter value => .deriveFilter value
  | .storeSp slot => .emit (.storeSp slot)
  | .storePosition slot => .emit (.storePosition slot)
  | .positionTest slot => .emit (.positionTest slot)
  | .assertionSuccess slot target => .emit (.assertionSuccess slot target)
  | .assertionFailure slot => .emit (.assertionFailure slot)
  | .assertion anchor => .emit (.assertion anchor)
  | .startCapture group => .emit (.startCapture group)
  | .endCapture group => .emit (.endCapture group)
  | .clearCaptures first stop => .emit (.clearCaptures first stop)
  | .counterZero slot => .emit (.counterZero slot)
  | .counterNext slot max target => .emit (.counterNext slot max target)
  | .pushBacktrack target => .emit (.pushBacktrack target)
  | .backReference group anyCase => .emit (.backReference group anyCase)
  | .checkChar unit => .emitUnit unit
  | .checkCharOr units => .emit (.checkAny units)
  | .checkRange ranges inverted => .emitRanges ranges inverted
  | .checkNChars units => .emit (.checkLiteral units)
  | .jump target => .emit (.jump target)
  | .failure => .emit .failure
  | .success => .emit .success

/-- A program under construction, by its instructions. -/
structure Assembly where
  /-- The instructions so far. -/
  emitted : Array (Instruction Label)
  /-- The offset of the next instruction. -/
  pc : Nat
  /-- The offset of each label, once it is bound. -/
  labels : Array (Option UInt32)
  ignoreCase : Bool
  filter : Option Filter
  deriveFilter : Bool
  pc_eq : pc = Instruction.totalLength emitted.toList

namespace Instruction

/-- Why an instruction can not be appended, its label apart. -/
def misuse? {Target : Type} : Instruction Target → Option Misuse
  | .checkAny units =>
    if 2 ≤ units.length && units.length ≤ 4 then none else some (.choiceSize units.length)
  | .checkRange ranges _ _ =>
    if 4 * ranges.length < wordLimit then none else some .programTooLarge
  | .checkLiteral units =>
    if units.isEmpty then some .emptyLiteral
    else if units.length < wordLimit then none
    else some .programTooLarge
  | _ => none

/-- The check of one unit in its shortest form. -/
def ofUnit {Target : Type} (unit : UInt16) : Instruction Target :=
  if unit < 256 then .checkByte unit.toUInt8 else .checkUnit unit

end Instruction

namespace Assembly

/-- Nothing emitted, no labels, exact literals and no filter. -/
def empty : Assembly where
  emitted := #[]
  pc := 0
  labels := #[]
  ignoreCase := false
  filter := none
  deriveFilter := false
  pc_eq := rfl

/-- The assembly with one more label, which is not bound. -/
def newLabel (assembly : Assembly) : Assembly :=
  { assembly with labels := assembly.labels.push none }

/-- The assembly with a label bound to the offset of the next instruction. -/
def bind (assembly : Assembly) (label : Label) : Except Misuse Assembly :=
  if wordLimit ≤ assembly.pc then .error .programTooLarge
  else
    match assembly.labels[label.index]? with
    | none => .error .unknownLabel
    | some (some _) => .error (.labelBoundTwice label)
    | some none =>
      .ok { assembly with
        labels := assembly.labels.setIfInBounds label.index (some (UInt32.ofNat assembly.pc)) }

/-- The assembly with one more instruction. -/
def append (assembly : Assembly) (instruction : Instruction Label) : Assembly :=
  { assembly with
    emitted := assembly.emitted.push instruction
    pc := assembly.pc + instruction.length
    pc_eq := by
      rw [assembly.pc_eq, Array.toList_push, Instruction.totalLength_append]
      rfl }

/-- The assembly with one more instruction, if the instruction can be written and its label
exists. -/
def emit (assembly : Assembly) (instruction : Instruction Label) : Except Misuse Assembly :=
  match instruction.misuse? with
  | some misuse => .error misuse
  | none =>
    match instruction.target? with
    | none => .ok (assembly.append instruction)
    | some label =>
      if label.index < assembly.labels.size then .ok (assembly.append instruction)
      else .error .unknownLabel

/-- The assembly after a directive. -/
def apply (assembly : Assembly) : Directive → Except Misuse Assembly
  | .newLabel => .ok assembly.newLabel
  | .bind label => assembly.bind label
  | .ignoreCase value => .ok { assembly with ignoreCase := value }
  | .filter value => .ok { assembly with filter := value }
  | .deriveFilter value => .ok { assembly with deriveFilter := value }
  | .emit instruction => assembly.emit instruction
  | .emitUnit unit => assembly.emit (.ofUnit unit)
  | .emitRanges ranges inverted =>
    match UnitRange.tableCount ranges with
    | .error misuse => .error misuse
    | .ok count => assembly.emit (.checkRange ranges count inverted)

/-- The assembly after directives carried out in order. -/
def applyAll (assembly : Assembly) : List Directive → Except Misuse Assembly
  | [] => .ok assembly
  | directive :: later =>
    match assembly.apply directive with
    | .error misuse => .error misuse
    | .ok assembly => assembly.applyAll later

/-- The offset that a label is bound to. -/
def place (assembly : Assembly) (label : Label) : Option UInt32 :=
  assembly.labels[label.index]?.join

/-- Instructions with their labels resolved, the first of them standing at the offset `pc`, or
the offset of the first one whose label has no place. -/
def resolve (place : Label → Option UInt32) (pc : Nat) :
    List (Instruction Label) → Except CodeError (List (Instruction UInt32))
  | [] => .ok []
  | symbolic :: later =>
    match symbolic.resolve place with
    | none => .error (.instruction pc .unboundLabel)
    | some instruction =>
      match resolve place (pc + symbolic.length) later with
      | .error error => .error error
      | .ok instructions => .ok (instruction :: instructions)

/-- The settings of an assembly carried over to its program. -/
def configure (assembly : Assembly) (program : Program) : Program :=
  let program := program.withIgnoreCase assembly.ignoreCase
  program.withFilter
    (if assembly.deriveFilter then program.leadingFilter? else assembly.filter)

/-- The finished program with this many groups and scratch slots. -/
def finish (assembly : Assembly) (captures counters : Nat) : Except CodeError Program :=
  match resolve assembly.place 0 assembly.emitted.toList with
  | .error error => .error error
  | .ok instructions =>
    match Program.ofBytes (instructions.flatMap Instruction.encode) captures counters with
    | .error error => .error error
    | .ok program => .ok (assembly.configure program)

end Assembly

end RegexMachine
