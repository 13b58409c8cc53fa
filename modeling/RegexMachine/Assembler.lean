import RegexMachine.Program.LeadingUnits

/-!
# The assembler

Programs written instruction by instruction, straight into their bytes. Branches refer to labels,
which can be bound before or after them: a branch is written with a hole of four zero bytes in
place of its target, and `finish` puts the offsets of the labels into the holes, in the order in
which they were left, before it validates the bytes. A call that makes no sense is refused at once.
-/

namespace RegexMachine

open LittleEndian

/-- A place in a program that branches can refer to before it is known. Labels are numbered in
the order of their creation. -/
structure Label where
  index : Nat
  deriving DecidableEq, Repr

/-- Why a call is refused. -/
inductive Misuse where
  /-- The label has a place already. -/
  | labelBoundTwice (label : Label)
  /-- A choice has fewer than two or more than four units. -/
  | choiceSize (size : Nat)
  /-- A literal has no units. -/
  | emptyLiteral
  /-- A range ends before it begins. -/
  | reversedRange
  /-- The units of a range table are more than its count can hold. -/
  | rangeCountTooLarge
  /-- An offset or a size exceeds its word. -/
  | programTooLarge
  /-- No such label was created. -/
  | unknownLabel
  deriving DecidableEq, Repr

namespace Misuse

/-- The sentence that goes with a refusal, for the refusals that have one. -/
def message? : Misuse → Option String
  | .labelBoundTwice label => some ("label Label(" ++ toString label.index ++ ") bound twice")
  | .choiceSize size => some ("CheckCharOr takes 2 to 4 units, got " ++ toString size)
  | .emptyLiteral => some "empty literal"
  | _ => none

end Misuse

/-- The number of units in ranges, those in several of them counted for each. -/
def UnitRange.totalCount : List UnitRange → Nat
  | [] => 0
  | range :: later => range.last.toNat - range.first.toNat + 1 + totalCount later

/-- The number of units in a table of ranges. -/
def UnitRange.tableCount (ranges : List UnitRange) : Except Misuse UInt32 :=
  if ranges.any (fun range => range.last < range.first) then .error .reversedRange
  else
    let count := totalCount ranges
    if count < wordLimit then .ok (UInt32.ofNat count) else .error .rangeCountTooLarge

/-- A number as a word of four bytes. -/
def toWord (number : Nat) : Except Misuse UInt32 :=
  if number < wordLimit then .ok (UInt32.ofNat number) else .error .programTooLarge

/-- An operand that is to be filled in with the place of a label. -/
structure Hole where
  /-- The offset of the operand. -/
  operand : Nat
  /-- The offset of the branch. -/
  pc : Nat
  label : Label
  deriving DecidableEq, Repr

/-- A program under construction. -/
structure Assembler where
  /-- The bytes so far, with zeros in the holes. -/
  bytes : Array UInt8
  /-- The offset of each label, once it is bound. -/
  labels : Array (Option UInt32)
  /-- The holes in the order of the branches. -/
  holes : Array Hole
  ignoreCase : Bool
  filter : Option Filter
  deriveFilter : Bool

namespace Assembler

/-- Nothing written, no labels, exact literals and no filter. -/
def empty : Assembler where
  bytes := #[]
  labels := #[]
  holes := #[]
  ignoreCase := false
  filter := none
  deriveFilter := false

/-- The offset of the next instruction. -/
def pc (assembler : Assembler) : Nat :=
  assembler.bytes.size

/-- The assembler with one more label, which is not bound. -/
def newLabel (assembler : Assembler) : Assembler :=
  { assembler with labels := assembler.labels.push none }

/-- The assembler with a label bound to the offset of the next instruction. -/
def bind (assembler : Assembler) (label : Label) : Except Misuse Assembler :=
  match toWord assembler.pc with
  | .error misuse => .error misuse
  | .ok place =>
    match assembler.labels[label.index]? with
    | none => .error .unknownLabel
    | some (some _) => .error (.labelBoundTwice label)
    | some none =>
      .ok { assembler with labels := assembler.labels.setIfInBounds label.index (some place) }

/-! Writing. -/

/-- Write bytes at the end. -/
def put (assembler : Assembler) (bytes : List UInt8) : Assembler :=
  { assembler with bytes := assembler.bytes ++ bytes }

/-- Write the tag of an opcode. -/
def op (assembler : Assembler) (opcode : Opcode) : Assembler :=
  assembler.put [opcode.tag]

/-- Write a word of two bytes. -/
def put2 (assembler : Assembler) (word : UInt16) : Assembler :=
  assembler.put (ofUInt16 word)

/-- Write a word of four bytes. -/
def put4 (assembler : Assembler) (word : UInt32) : Assembler :=
  assembler.put (ofUInt32 word)

/-- Leave a hole for the place of a label, as the last operand of the branch at an offset. -/
def putTarget (assembler : Assembler) (pc : Nat) (label : Label) : Assembler :=
  { assembler with holes := assembler.holes.push ⟨assembler.pc, pc, label⟩ }.put4 0

/-- Write an opcode and one word. -/
def emitWord (assembler : Assembler) (opcode : Opcode) (operand : UInt32) : Assembler :=
  (assembler.op opcode).put4 operand

/-- Write an opcode, its words and a hole for its target. -/
def emitBranch (assembler : Assembler) (opcode : Opcode) (operands : List UInt32)
    (target : Label) : Assembler :=
  (operands.foldl put4 (assembler.op opcode)).putTarget assembler.pc target

/-- Write units. -/
def putUnits (assembler : Assembler) (units : List UInt16) : Assembler :=
  units.foldl put2 assembler

/-- Write the ends of ranges. -/
def putRanges (assembler : Assembler) (ranges : List UnitRange) : Assembler :=
  ranges.foldl (fun assembler range => (assembler.put2 range.first).put2 range.last) assembler

/-! Instructions. -/

/-- Save the depth of the stack. -/
def storeSp (assembler : Assembler) (slot : UInt32) : Assembler :=
  assembler.emitWord .storeSp slot

/-- Save the position. -/
def storePosition (assembler : Assembler) (slot : UInt32) : Assembler :=
  assembler.emitWord .storePosition slot

/-- Require a position other than the saved one. -/
def positionTest (assembler : Assembler) (slot : UInt32) : Assembler :=
  assembler.emitWord .positionTest slot

/-- End the body of a look-around that matched. -/
def assertionSuccess (assembler : Assembler) (slot : UInt32) (target : Label) : Assembler :=
  assembler.emitBranch .assertionSuccess [slot] target

/-- End the body of a negative look-around that matched. -/
def assertionFailure (assembler : Assembler) (slot : UInt32) : Assembler :=
  assembler.emitWord .assertionFailure slot

/-- Require an anchor. -/
def assertion (assembler : Assembler) (anchor : Anchor) : Assembler :=
  assembler.op anchor.opcode

/-- Start a group. -/
def startCapture (assembler : Assembler) (group : UInt32) : Assembler :=
  assembler.emitWord .startCapture group

/-- End a group. -/
def endCapture (assembler : Assembler) (group : UInt32) : Assembler :=
  assembler.emitWord .endCapture group

/-- Forget the groups from `first` up to, not including, `stop`. -/
def clearCaptures (assembler : Assembler) (first stop : UInt32) : Assembler :=
  ((assembler.op .clearCaptures).put4 first).put4 stop

/-- Set a counter to zero. -/
def counterZero (assembler : Assembler) (slot : UInt32) : Assembler :=
  assembler.emitWord .counterZero slot

/-- Count up, and jump while the counter is below `max`. -/
def counterNext (assembler : Assembler) (slot max : UInt32) (target : Label) : Assembler :=
  assembler.emitBranch .counterNext [slot, max] target

/-- Continue here, and resume at the target on failure. -/
def pushBacktrack (assembler : Assembler) (target : Label) : Assembler :=
  assembler.emitBranch .pushBacktrack [] target

/-- Match the text of a group again. -/
def backReference (assembler : Assembler) (group : UInt16) (ignoreCase : Bool) : Assembler :=
  (assembler.op (if ignoreCase then .backReferenceIgnoreCase else .backReference)).put2 group

/-- Match one unit, in the form of one byte if the unit fits. -/
def checkChar (assembler : Assembler) (unit : UInt16) : Assembler :=
  if unit < 256 then (assembler.op .check1ByteChar).put [unit.toUInt8]
  else (assembler.op .check2ByteChar).put2 unit

/-- Match any of two to four units. -/
def checkCharOr (assembler : Assembler) (units : List UInt16) : Except Misuse Assembler :=
  match units.length with
  | 2 => .ok ((assembler.op .check2CharOr).putUnits units)
  | 3 => .ok ((assembler.op .check3CharOr).putUnits units)
  | 4 => .ok ((assembler.op .check4CharOr).putUnits units)
  | size => .error (.choiceSize size)

/-- Match a unit inside, or if inverted outside, ranges. -/
def checkRange (assembler : Assembler) (ranges : List UnitRange) (inverted : Bool) :
    Except Misuse Assembler :=
  let assembler := assembler.op (if inverted then .checkRangeInverted else .checkRange)
  match UnitRange.tableCount ranges with
  | .error misuse => .error misuse
  | .ok count =>
    match toWord (4 * ranges.length) with
    | .error misuse => .error misuse
    | .ok size => .ok (((assembler.put4 size).put4 count).putRanges ranges)

/-- Match a run of units. -/
def checkNChars (assembler : Assembler) (units : List UInt16) : Except Misuse Assembler :=
  if units.isEmpty then .error .emptyLiteral
  else
    match toWord units.length with
    | .error misuse => .error misuse
    | .ok count => .ok (((assembler.op .checkNChars).put4 count).putUnits units)

/-- Jump. -/
def jump (assembler : Assembler) (target : Label) : Assembler :=
  assembler.emitBranch .jump [] target

/-- Fail. -/
def failure (assembler : Assembler) : Assembler :=
  assembler.op .failure

/-- Report a match. -/
def success (assembler : Assembler) : Assembler :=
  assembler.op .success

/-! Finishing. -/

/-- Bytes with others written over those from an offset on. -/
def patch (bytes : Array UInt8) (start : Nat) : List UInt8 → Array UInt8
  | [] => bytes
  | byte :: later => patch (bytes.setIfInBounds start byte) (start + 1) later

/-- Bytes with the places of labels written into holes, one after the other, up to the first hole
whose label has no place. The outer error breaks off, the inner one is an answer. -/
def fill (labels : Array (Option UInt32)) :
    List Hole → Array UInt8 → Except Misuse (Except CodeError (Array UInt8))
  | [], bytes => .ok (.ok bytes)
  | hole :: later, bytes =>
    match labels[hole.label.index]? with
    | none => .error .unknownLabel
    | some none => .ok (.error (.instruction hole.pc .unboundLabel))
    | some (some place) => fill labels later (patch bytes hole.operand (ofUInt32 place))

/-- The settings of an assembler carried over to its program. -/
def configure (assembler : Assembler) (program : Program) : Program :=
  let program := program.withIgnoreCase assembler.ignoreCase
  program.withFilter
    (if assembler.deriveFilter then program.leadingFilter? else assembler.filter)

/-- The finished program with this many groups and scratch slots. -/
def finish (assembler : Assembler) (captures counters : Nat) :
    Except Misuse (Except CodeError Program) :=
  match fill assembler.labels assembler.holes.toList assembler.bytes with
  | .error misuse => .error misuse
  | .ok (.error error) => .ok (.error error)
  | .ok (.ok bytes) =>
    match Program.ofBytes bytes.toList captures counters with
    | .error error => .ok (.error error)
    | .ok program => .ok (.ok (assembler.configure program))

end Assembler

/-- One step of building a program. -/
inductive Call where
  | newLabel
  | bind (label : Label)
  | ignoreCase (value : Bool)
  | filter (value : Option Filter)
  | deriveFilter (value : Bool)
  | storeSp (slot : UInt32)
  | storePosition (slot : UInt32)
  | positionTest (slot : UInt32)
  | assertionSuccess (slot : UInt32) (target : Label)
  | assertionFailure (slot : UInt32)
  | assertion (anchor : Anchor)
  | startCapture (group : UInt32)
  | endCapture (group : UInt32)
  | clearCaptures (first stop : UInt32)
  | counterZero (slot : UInt32)
  | counterNext (slot max : UInt32) (target : Label)
  | pushBacktrack (target : Label)
  | backReference (group : UInt16) (ignoreCase : Bool)
  | checkChar (unit : UInt16)
  | checkCharOr (units : List UInt16)
  | checkRange (ranges : List UnitRange) (inverted : Bool)
  | checkNChars (units : List UInt16)
  | jump (target : Label)
  | failure
  | success
  deriving DecidableEq, Repr

namespace Call

/-- The label that a branch goes to. -/
def target? : Call → Option Label
  | .assertionSuccess _ target => some target
  | .counterNext _ _ target => some target
  | .pushBacktrack target => some target
  | .jump target => some target
  | _ => none

/-- The label that a call is about. -/
def label? : Call → Option Label
  | .bind label => some label
  | call => call.target?

/-- Whether a call writes an instruction. -/
def isEmission : Call → Bool
  | .newLabel | .bind _ | .ignoreCase _ | .filter _ | .deriveFilter _ => false
  | _ => true

end Call

namespace Assembler

/-- The assembler after a call. -/
def apply (assembler : Assembler) : Call → Except Misuse Assembler
  | .newLabel => .ok assembler.newLabel
  | .bind label => assembler.bind label
  | .ignoreCase value => .ok { assembler with ignoreCase := value }
  | .filter value => .ok { assembler with filter := value }
  | .deriveFilter value => .ok { assembler with deriveFilter := value }
  | .storeSp slot => .ok (assembler.storeSp slot)
  | .storePosition slot => .ok (assembler.storePosition slot)
  | .positionTest slot => .ok (assembler.positionTest slot)
  | .assertionSuccess slot target => .ok (assembler.assertionSuccess slot target)
  | .assertionFailure slot => .ok (assembler.assertionFailure slot)
  | .assertion anchor => .ok (assembler.assertion anchor)
  | .startCapture group => .ok (assembler.startCapture group)
  | .endCapture group => .ok (assembler.endCapture group)
  | .clearCaptures first stop => .ok (assembler.clearCaptures first stop)
  | .counterZero slot => .ok (assembler.counterZero slot)
  | .counterNext slot max target => .ok (assembler.counterNext slot max target)
  | .pushBacktrack target => .ok (assembler.pushBacktrack target)
  | .backReference group ignoreCase => .ok (assembler.backReference group ignoreCase)
  | .checkChar unit => .ok (assembler.checkChar unit)
  | .checkCharOr units => assembler.checkCharOr units
  | .checkRange ranges inverted => assembler.checkRange ranges inverted
  | .checkNChars units => assembler.checkNChars units
  | .jump target => .ok (assembler.jump target)
  | .failure => .ok assembler.failure
  | .success => .ok assembler.success

/-- The assembler after calls in order. -/
def applyAll (assembler : Assembler) : List Call → Except Misuse Assembler
  | [] => .ok assembler
  | call :: later =>
    match assembler.apply call with
    | .error misuse => .error misuse
    | .ok assembler => assembler.applyAll later

end Assembler

end RegexMachine
