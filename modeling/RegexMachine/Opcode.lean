/-!
# Opcodes

Every encoded instruction starts with a one-byte tag. The tags are dense, from 0 to 29, and
`ofTag?` reads exactly what `tag` writes.
-/

namespace RegexMachine

/-- The kind of an encoded instruction. -/
inductive Opcode where
  | storeSp
  | storePosition
  | positionTest
  | assertionSuccess
  | assertionFailure
  | assertionBol
  | assertionBob
  | assertionEol
  | assertionEob
  | assertionWordBoundary
  | assertionWordBoundaryInverted
  | startCapture
  | endCapture
  | clearCaptures
  | counterZero
  | counterNext
  | pushBacktrack
  | backReference
  | backReferenceIgnoreCase
  | check1ByteChar
  | check2ByteChar
  | check2CharOr
  | check3CharOr
  | check4CharOr
  | checkRange
  | checkRangeInverted
  | checkNChars
  | jump
  | failure
  | success
  deriving DecidableEq, Repr

namespace Opcode

/-- The opcodes in the order of their tags. -/
def all : List Opcode :=
  [.storeSp, .storePosition, .positionTest, .assertionSuccess, .assertionFailure,
   .assertionBol, .assertionBob, .assertionEol, .assertionEob, .assertionWordBoundary,
   .assertionWordBoundaryInverted, .startCapture, .endCapture, .clearCaptures, .counterZero,
   .counterNext, .pushBacktrack, .backReference, .backReferenceIgnoreCase, .check1ByteChar,
   .check2ByteChar, .check2CharOr, .check3CharOr, .check4CharOr, .checkRange,
   .checkRangeInverted, .checkNChars, .jump, .failure, .success]

/-- The tag that an instruction of this kind starts with. -/
def tag : Opcode → UInt8
  | .storeSp => 0
  | .storePosition => 1
  | .positionTest => 2
  | .assertionSuccess => 3
  | .assertionFailure => 4
  | .assertionBol => 5
  | .assertionBob => 6
  | .assertionEol => 7
  | .assertionEob => 8
  | .assertionWordBoundary => 9
  | .assertionWordBoundaryInverted => 10
  | .startCapture => 11
  | .endCapture => 12
  | .clearCaptures => 13
  | .counterZero => 14
  | .counterNext => 15
  | .pushBacktrack => 16
  | .backReference => 17
  | .backReferenceIgnoreCase => 18
  | .check1ByteChar => 19
  | .check2ByteChar => 20
  | .check2CharOr => 21
  | .check3CharOr => 22
  | .check4CharOr => 23
  | .checkRange => 24
  | .checkRangeInverted => 25
  | .checkNChars => 26
  | .jump => 27
  | .failure => 28
  | .success => 29

/-- The opcode of a tag, if the tag is known. -/
def ofTag? (byte : UInt8) : Option Opcode :=
  all[byte.toNat]?

/-- The bytes of an instruction of this kind, its variable tail apart. -/
def length : Opcode → Nat
  | .assertionBol | .assertionBob | .assertionEol | .assertionEob
  | .assertionWordBoundary | .assertionWordBoundaryInverted | .failure | .success => 1
  | .check1ByteChar => 2
  | .backReference | .backReferenceIgnoreCase | .check2ByteChar => 3
  | .storeSp | .storePosition | .positionTest | .assertionFailure | .startCapture
  | .endCapture | .counterZero | .pushBacktrack | .jump | .checkNChars | .check2CharOr => 5
  | .check3CharOr => 7
  | .assertionSuccess | .clearCaptures | .check4CharOr | .checkRange
  | .checkRangeInverted => 9
  | .counterNext => 13

/-- The name an opcode is listed under. -/
def name : Opcode → String
  | .storeSp => "StoreSp"
  | .storePosition => "StorePosition"
  | .positionTest => "PositionTest"
  | .assertionSuccess => "AssertionSuccess"
  | .assertionFailure => "AssertionFailure"
  | .assertionBol => "AssertionBol"
  | .assertionBob => "AssertionBob"
  | .assertionEol => "AssertionEol"
  | .assertionEob => "AssertionEob"
  | .assertionWordBoundary => "AssertionWordBoundary"
  | .assertionWordBoundaryInverted => "AssertionWordBoundaryInverted"
  | .startCapture => "StartCapture"
  | .endCapture => "EndCapture"
  | .clearCaptures => "ClearCaptures"
  | .counterZero => "CounterZero"
  | .counterNext => "CounterNext"
  | .pushBacktrack => "PushBacktrack"
  | .backReference => "BackReference"
  | .backReferenceIgnoreCase => "BackReferenceIgnoreCase"
  | .check1ByteChar => "Check1ByteChar"
  | .check2ByteChar => "Check2ByteChar"
  | .check2CharOr => "Check2CharOr"
  | .check3CharOr => "Check3CharOr"
  | .check4CharOr => "Check4CharOr"
  | .checkRange => "CheckRange"
  | .checkRangeInverted => "CheckRangeInverted"
  | .checkNChars => "CheckNChars"
  | .jump => "Jump"
  | .failure => "Failure"
  | .success => "Success"

/-- Reading a written tag gives the opcode back. -/
theorem ofTag?_tag (opcode : Opcode) : ofTag? opcode.tag = some opcode := by
  cases opcode <;> rfl

/-- A byte that reads as an opcode is that opcode's tag. -/
theorem tag_of_ofTag? {byte : UInt8} {opcode : Opcode} (read : ofTag? byte = some opcode) :
    byte = opcode.tag := by
  have known : byte.toNat < 30 := by
    have inside := List.getElem?_eq_some_iff.mp read
    exact inside.1
  have split : ∀ index : Fin 30, ∀ candidate,
      all[index.val]? = some candidate → index.val = candidate.tag.toNat := by
    decide +revert
  exact UInt8.toNat_inj.mp (split ⟨byte.toNat, known⟩ opcode read)

end Opcode

end RegexMachine
