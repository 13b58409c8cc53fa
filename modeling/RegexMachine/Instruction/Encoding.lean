import RegexMachine.Error
import RegexMachine.Instruction
import RegexMachine.Limits
import RegexMachine.LittleEndian
import RegexMachine.Opcode

/-!
# The encoding of instructions

An instruction is written as the tag of its opcode followed by its operands, little-endian.
A range table is written as its size in bytes, its count and its pairs; a literal as its
number of units and the units. `decode` takes one instruction off the front of a byte list,
and a decoded instruction takes as many bytes as its length says.
-/

namespace RegexMachine

open LittleEndian

namespace Anchor

/-- The opcode of an anchor. -/
def opcode : Anchor → Opcode
  | .bob => .assertionBob
  | .eob => .assertionEob
  | .bol => .assertionBol
  | .eol => .assertionEol
  | .wordBoundary => .assertionWordBoundary
  | .notWordBoundary => .assertionWordBoundaryInverted

end Anchor

namespace UnitRange

/-- The four bytes of a range. -/
def encode (range : UnitRange) : List UInt8 :=
  ofUInt16 range.first ++ ofUInt16 range.last

/-- Take a number of ranges off the front. -/
def decode? : Nat → List UInt8 → Option (List UnitRange × List UInt8)
  | 0, bytes => some ([], bytes)
  | count + 1, bytes =>
    match uint16? bytes with
    | none => none
    | some (first, rest) =>
      match uint16? rest with
      | none => none
      | some (last, rest) =>
        match decode? count rest with
        | none => none
        | some (ranges, rest) => some (⟨first, last⟩ :: ranges, rest)

/-- Reading ranges gives as many as were asked for, and takes four bytes each. -/
theorem length_of_decode? {count : Nat} {bytes rest : List UInt8} {ranges : List UnitRange}
    (read : decode? count bytes = some (ranges, rest)) :
    ranges.length = count ∧ bytes.length = 4 * count + rest.length := by
  induction count generalizing bytes ranges with
  | zero =>
    simp only [decode?, Option.some.injEq, Prod.mk.injEq] at read
    obtain ⟨rfl, rfl⟩ := read
    simp
  | succ count inductionHypothesis =>
    simp only [decode?] at read
    split at read
    · simp at read
    · rename_i first afterFirst readFirst
      split at read
      · simp at read
      · rename_i last afterLast readLast
        split at read
        · simp at read
        · rename_i later final readLater
          simp only [Option.some.injEq, Prod.mk.injEq] at read
          obtain ⟨rfl, rfl⟩ := read
          have firstTaken := length_of_uint16? readFirst
          have lastTaken := length_of_uint16? readLast
          have laterTaken := inductionHypothesis readLater
          simp only [List.length_cons]
          omega

end UnitRange

namespace Instruction

/-- The bytes of an instruction. -/
def encode : Instruction UInt32 → List UInt8
  | .storeSp slot => Opcode.storeSp.tag :: ofUInt32 slot
  | .storePosition slot => Opcode.storePosition.tag :: ofUInt32 slot
  | .positionTest slot => Opcode.positionTest.tag :: ofUInt32 slot
  | .assertionSuccess slot target =>
    Opcode.assertionSuccess.tag :: (ofUInt32 slot ++ ofUInt32 target)
  | .assertionFailure slot => Opcode.assertionFailure.tag :: ofUInt32 slot
  | .assertion anchor => [anchor.opcode.tag]
  | .startCapture group => Opcode.startCapture.tag :: ofUInt32 group
  | .endCapture group => Opcode.endCapture.tag :: ofUInt32 group
  | .clearCaptures first stop =>
    Opcode.clearCaptures.tag :: (ofUInt32 first ++ ofUInt32 stop)
  | .counterZero slot => Opcode.counterZero.tag :: ofUInt32 slot
  | .counterNext slot max target =>
    Opcode.counterNext.tag :: (ofUInt32 slot ++ ofUInt32 max ++ ofUInt32 target)
  | .pushBacktrack target => Opcode.pushBacktrack.tag :: ofUInt32 target
  | .backReference group false => Opcode.backReference.tag :: ofUInt16 group
  | .backReference group true => Opcode.backReferenceIgnoreCase.tag :: ofUInt16 group
  | .checkByte unit => [Opcode.check1ByteChar.tag, unit]
  | .checkUnit unit => Opcode.check2ByteChar.tag :: ofUInt16 unit
  | .checkAny units =>
    let opcode : Opcode :=
      match units.length with
      | 2 => .check2CharOr
      | 3 => .check3CharOr
      | _ => .check4CharOr
    opcode.tag :: units.flatMap ofUInt16
  | .checkRange ranges count inverted =>
    let opcode : Opcode := if inverted then .checkRangeInverted else .checkRange
    opcode.tag :: (ofUInt32 (UInt32.ofNat (4 * ranges.length)) ++ ofUInt32 count ++
      ranges.flatMap UnitRange.encode)
  | .checkLiteral units =>
    Opcode.checkNChars.tag :: (ofUInt32 (UInt32.ofNat units.length) ++ units.flatMap ofUInt16)
  | .jump target => Opcode.jump.tag :: ofUInt32 target
  | .failure => [Opcode.failure.tag]
  | .success => [Opcode.success.tag]

/-- Whether an instruction can be written: a choice has two to four units, a literal at least
one, and the sizes of its tables fit their words. -/
def Encodable : Instruction UInt32 → Prop
  | .checkAny units => 2 ≤ units.length ∧ units.length ≤ 4
  | .checkRange ranges _ _ => 4 * ranges.length < wordLimit
  | .checkLiteral units => 0 < units.length ∧ units.length < wordLimit
  | _ => True

/-- What a reader answers: the instruction and the bytes after it. -/
abbrev Decoded := Except Defect (Instruction UInt32 × List UInt8)

/-- Read one word and build an instruction of it. -/
def decodeWord (build : UInt32 → Instruction UInt32) (bytes : List UInt8) : Decoded :=
  match uint32? bytes with
  | none => .error .truncated
  | some (word, rest) => .ok (build word, rest)

/-- Read two words and build an instruction of them. -/
def decodeTwoWords (build : UInt32 → UInt32 → Instruction UInt32) (bytes : List UInt8) :
    Decoded :=
  match uint32? bytes with
  | none => .error .truncated
  | some (word, rest) => decodeWord (build word) rest

/-- Read three words and build an instruction of them. -/
def decodeThreeWords (build : UInt32 → UInt32 → UInt32 → Instruction UInt32)
    (bytes : List UInt8) : Decoded :=
  match uint32? bytes with
  | none => .error .truncated
  | some (word, rest) => decodeTwoWords (build word) rest

/-- Read one half word and build an instruction of it. -/
def decodeHalf (build : UInt16 → Instruction UInt32) (bytes : List UInt8) : Decoded :=
  match uint16? bytes with
  | none => .error .truncated
  | some (half, rest) => .ok (build half, rest)

/-- Read a number of units and build an instruction of them. -/
def decodeUnits (count : Nat) (build : List UInt16 → Instruction UInt32)
    (bytes : List UInt8) : Decoded :=
  match uint16s? count bytes with
  | none => .error .truncated
  | some (units, rest) => .ok (build units, rest)

/-- Read a range table: its size, which has to be a number of whole ranges, its count, and the
ranges. -/
def decodeRanges (inverted : Bool) (bytes : List UInt8) : Decoded :=
  match uint32? bytes with
  | none => .error .truncated
  | some (size, rest) =>
    match uint32? rest with
    | none => .error .truncated
    | some (count, rest) =>
      if size.toNat % 4 ≠ 0 then .error .invalidRangeTable
      else
        match UnitRange.decode? (size.toNat / 4) rest with
        | none => .error .truncated
        | some (ranges, rest) => .ok (.checkRange ranges count inverted, rest)

/-- Read a literal: its number of units, which has to be positive, and the units. -/
def decodeLiteral (bytes : List UInt8) : Decoded :=
  match uint32? bytes with
  | none => .error .truncated
  | some (count, rest) =>
    if count.toNat = 0 then .error .emptyLiteral
    else decodeUnits count.toNat .checkLiteral rest

/-- Read the operands of an instruction whose tag has been read. -/
def decodeOperands (opcode : Opcode) (bytes : List UInt8) : Decoded :=
  match opcode with
  | .storeSp => decodeWord .storeSp bytes
  | .storePosition => decodeWord .storePosition bytes
  | .positionTest => decodeWord .positionTest bytes
  | .assertionSuccess => decodeTwoWords .assertionSuccess bytes
  | .assertionFailure => decodeWord .assertionFailure bytes
  | .assertionBol => .ok (.assertion .bol, bytes)
  | .assertionBob => .ok (.assertion .bob, bytes)
  | .assertionEol => .ok (.assertion .eol, bytes)
  | .assertionEob => .ok (.assertion .eob, bytes)
  | .assertionWordBoundary => .ok (.assertion .wordBoundary, bytes)
  | .assertionWordBoundaryInverted => .ok (.assertion .notWordBoundary, bytes)
  | .startCapture => decodeWord .startCapture bytes
  | .endCapture => decodeWord .endCapture bytes
  | .clearCaptures => decodeTwoWords .clearCaptures bytes
  | .counterZero => decodeWord .counterZero bytes
  | .counterNext => decodeThreeWords .counterNext bytes
  | .pushBacktrack => decodeWord .pushBacktrack bytes
  | .backReference => decodeHalf (.backReference · false) bytes
  | .backReferenceIgnoreCase => decodeHalf (.backReference · true) bytes
  | .check1ByteChar =>
    match bytes with
    | [] => .error .truncated
    | unit :: rest => .ok (.checkByte unit, rest)
  | .check2ByteChar => decodeHalf .checkUnit bytes
  | .check2CharOr => decodeUnits 2 .checkAny bytes
  | .check3CharOr => decodeUnits 3 .checkAny bytes
  | .check4CharOr => decodeUnits 4 .checkAny bytes
  | .checkRange => decodeRanges false bytes
  | .checkRangeInverted => decodeRanges true bytes
  | .checkNChars => decodeLiteral bytes
  | .jump => decodeWord .jump bytes
  | .failure => .ok (.failure, bytes)
  | .success => .ok (.success, bytes)

/-- Take one instruction off the front. -/
def decode : List UInt8 → Decoded
  | [] => .error .truncated
  | tag :: rest =>
    match Opcode.ofTag? tag with
    | none => .error (.unknownOpcode tag)
    | some opcode => decodeOperands opcode rest

/-- The instruction at an offset of a stream, with its length. -/
def decodeAt (stream : List UInt8) (pc : Nat) : Except CodeError (Instruction UInt32 × Nat) :=
  match decode (stream.drop pc) with
  | .error defect => .error (.instruction pc defect)
  | .ok (instruction, _) => .ok (instruction, instruction.length)

/-- An instruction of one word takes four bytes after its tag. -/
theorem length_of_decodeWord {build : UInt32 → Instruction UInt32} (size : Nat)
    (measured : ∀ word, (build word).length = size) {bytes rest : List UInt8}
    {instruction : Instruction UInt32}
    (read : decodeWord build bytes = .ok (instruction, rest)) :
    instruction.length = size ∧ bytes.length = 4 + rest.length := by
  unfold decodeWord at read
  split at read
  · simp at read
  · rename_i word after taken
    simp only [Except.ok.injEq, Prod.mk.injEq] at read
    obtain ⟨rfl, rfl⟩ := read
    exact ⟨measured word, length_of_uint32? taken⟩

/-- An instruction of two words takes eight bytes after its tag. -/
theorem length_of_decodeTwoWords {build : UInt32 → UInt32 → Instruction UInt32} (size : Nat)
    (measured : ∀ first second, (build first second).length = size)
    {bytes rest : List UInt8} {instruction : Instruction UInt32}
    (read : decodeTwoWords build bytes = .ok (instruction, rest)) :
    instruction.length = size ∧ bytes.length = 8 + rest.length := by
  unfold decodeTwoWords at read
  split at read
  · simp at read
  · rename_i word after taken
    have first := length_of_uint32? taken
    have others := length_of_decodeWord size (measured word) read
    omega

/-- An instruction of three words takes twelve bytes after its tag. -/
theorem length_of_decodeThreeWords
    {build : UInt32 → UInt32 → UInt32 → Instruction UInt32} (size : Nat)
    (measured : ∀ first second third, (build first second third).length = size)
    {bytes rest : List UInt8} {instruction : Instruction UInt32}
    (read : decodeThreeWords build bytes = .ok (instruction, rest)) :
    instruction.length = size ∧ bytes.length = 12 + rest.length := by
  unfold decodeThreeWords at read
  split at read
  · simp at read
  · rename_i word after taken
    have first := length_of_uint32? taken
    have others := length_of_decodeTwoWords size (measured word) read
    omega

/-- An instruction of one half word takes two bytes after its tag. -/
theorem length_of_decodeHalf {build : UInt16 → Instruction UInt32} (size : Nat)
    (measured : ∀ half, (build half).length = size) {bytes rest : List UInt8}
    {instruction : Instruction UInt32}
    (read : decodeHalf build bytes = .ok (instruction, rest)) :
    instruction.length = size ∧ bytes.length = 2 + rest.length := by
  unfold decodeHalf at read
  split at read
  · simp at read
  · rename_i half after taken
    simp only [Except.ok.injEq, Prod.mk.injEq] at read
    obtain ⟨rfl, rfl⟩ := read
    exact ⟨measured half, length_of_uint16? taken⟩

/-- An instruction of some units takes two bytes for each after its tag. -/
theorem length_of_decodeUnits {build : List UInt16 → Instruction UInt32} {count : Nat} (size : Nat)
    (measured : ∀ units : List UInt16, units.length = count → (build units).length = size)
    {bytes rest : List UInt8} {instruction : Instruction UInt32}
    (read : decodeUnits count build bytes = .ok (instruction, rest)) :
    instruction.length = size ∧ bytes.length = 2 * count + rest.length := by
  unfold decodeUnits at read
  split at read
  · simp at read
  · rename_i units after taken
    simp only [Except.ok.injEq, Prod.mk.injEq] at read
    obtain ⟨rfl, rfl⟩ := read
    have lengths := length_of_uint16s? taken
    exact ⟨measured units lengths.1, lengths.2⟩

/-- A range instruction takes as many bytes as its length, its tag included. -/
theorem length_of_decodeRanges {inverted : Bool} {bytes rest : List UInt8}
    {instruction : Instruction UInt32}
    (read : decodeRanges inverted bytes = .ok (instruction, rest)) :
    bytes.length + 1 = instruction.length + rest.length := by
  unfold decodeRanges at read
  split at read
  · simp at read
  · rename_i size afterSize readSize
    split at read
    · simp at read
    · rename_i count afterCount readCount
      split at read
      · simp at read
      · split at read
        · simp at read
        · rename_i ranges after taken
          simp only [Except.ok.injEq, Prod.mk.injEq] at read
          obtain ⟨rfl, rfl⟩ := read
          have sizeLength := length_of_uint32? readSize
          have countLength := length_of_uint32? readCount
          have rangeLengths := UnitRange.length_of_decode? taken
          simp only [length]
          omega

/-- A literal takes as many bytes as its length, its tag included. -/
theorem length_of_decodeLiteral {bytes rest : List UInt8} {instruction : Instruction UInt32}
    (read : decodeLiteral bytes = .ok (instruction, rest)) :
    bytes.length + 1 = instruction.length + rest.length := by
  unfold decodeLiteral at read
  split at read
  · simp at read
  · rename_i count after readCount
    split at read
    · simp at read
    · have countLength := length_of_uint32? readCount
      have lengths := length_of_decodeUnits (5 + 2 * count.toNat)
        (fun units many => by simp only [length, many]) read
      omega

/-- The operands of an instruction take its length less the byte of the tag. -/
theorem length_of_decodeOperands {opcode : Opcode} {bytes rest : List UInt8}
    {instruction : Instruction UInt32}
    (read : decodeOperands opcode bytes = .ok (instruction, rest)) :
    bytes.length + 1 = instruction.length + rest.length := by
  cases opcode <;> simp only [decodeOperands] at read
  case storeSp | storePosition | positionTest | assertionFailure | startCapture | endCapture
      | counterZero | pushBacktrack | jump =>
    have lengths := length_of_decodeWord 5 (fun _ => rfl) read
    omega
  case backReference | backReferenceIgnoreCase | check2ByteChar =>
    have lengths := length_of_decodeHalf 3 (fun _ => rfl) read
    omega
  case assertionSuccess | clearCaptures =>
    have lengths := length_of_decodeTwoWords 9 (fun _ _ => rfl) read
    omega
  case counterNext =>
    have lengths := length_of_decodeThreeWords 13 (fun _ _ _ => rfl) read
    omega
  case check2CharOr =>
    have lengths := length_of_decodeUnits 5
      (fun units many => by simp only [length, many]) read
    omega
  case check3CharOr =>
    have lengths := length_of_decodeUnits 7
      (fun units many => by simp only [length, many]) read
    omega
  case check4CharOr =>
    have lengths := length_of_decodeUnits 9
      (fun units many => by simp only [length, many]) read
    omega
  case check1ByteChar =>
    split at read
    · simp at read
    · simp only [Except.ok.injEq, Prod.mk.injEq] at read
      obtain ⟨rfl, rfl⟩ := read
      simp only [length, List.length_cons]
      omega
  case checkRange | checkRangeInverted => exact length_of_decodeRanges read
  case checkNChars => exact length_of_decodeLiteral read
  all_goals
    simp only [Except.ok.injEq, Prod.mk.injEq] at read
    obtain ⟨rfl, rfl⟩ := read
    simp only [length]
    omega

/-- A decoded instruction and the rest make up the bytes it was read from. -/
theorem length_of_decode {bytes rest : List UInt8} {instruction : Instruction UInt32}
    (read : decode bytes = .ok (instruction, rest)) :
    bytes.length = instruction.length + rest.length := by
  unfold decode at read
  split at read
  · simp at read
  · split at read
    · simp at read
    · have lengths := length_of_decodeOperands read
      simp only [List.length_cons]
      omega

/-- Every instruction takes at least one byte. -/
theorem length_pos {Target : Type} (instruction : Instruction Target) :
    0 < instruction.length := by
  cases instruction <;> simp only [length] <;> omega

end Instruction

end RegexMachine
