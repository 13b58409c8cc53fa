import RegexMachine.Proofs.Words

/-!
# Exact decoding

`Instruction.decode` reads the encodings of instructions and nothing else
(`Instruction.decode_eq_ok_iff`), and it refuses a byte list exactly for the defect that
`Malformed` finds at its front (`Instruction.decode_eq_error_iff`).
-/

namespace RegexMachine

open LittleEndian

/-- What keeps a non-empty byte list from beginning with an encoded instruction. The size of a
table and the length of a literal are judged once the fixed part of the instruction is there,
and before its tail is. -/
inductive Malformed : List UInt8 → Defect → Prop where
  /-- The first byte is no tag. -/
  | unknownOpcode {tag : UInt8} {operands : List UInt8} (unknown : Opcode.ofTag? tag = none) :
      Malformed (tag :: operands) (.unknownOpcode tag)
  /-- The fixed part of the instruction is cut off. -/
  | shortOperands {opcode : Opcode} {operands : List UInt8}
      (short : operands.length + 1 < opcode.length) :
      Malformed (opcode.tag :: operands) .truncated
  /-- The size of a range table is not a number of whole ranges. -/
  | unevenTable {opcode : Opcode} {size count : UInt32} {ranges : List UInt8}
      (table : opcode = .checkRange ∨ opcode = .checkRangeInverted)
      (uneven : size.toNat % 4 ≠ 0) :
      Malformed (opcode.tag :: (ofUInt32 size ++ ofUInt32 count ++ ranges)) .invalidRangeTable
  /-- A range table is cut off. -/
  | shortTable {opcode : Opcode} {size count : UInt32} {ranges : List UInt8}
      (table : opcode = .checkRange ∨ opcode = .checkRangeInverted)
      (even : size.toNat % 4 = 0) (short : ranges.length < size.toNat) :
      Malformed (opcode.tag :: (ofUInt32 size ++ ofUInt32 count ++ ranges)) .truncated
  /-- A literal is announced without units. -/
  | emptyLiteral {units : List UInt8} :
      Malformed (Opcode.checkNChars.tag :: (ofUInt32 0 ++ units)) .emptyLiteral
  /-- A literal is cut off. -/
  | shortLiteral {count : UInt32} {units : List UInt8} (some : count ≠ 0)
      (short : units.length < 2 * count.toNat) :
      Malformed (Opcode.checkNChars.tag :: (ofUInt32 count ++ units)) .truncated

namespace Instruction

/-- An encoding has as many bytes as the length of the instruction says. -/
@[simp] theorem length_encode (instruction : Instruction UInt32) :
    instruction.encode.length = instruction.length := by
  cases instruction with
  | backReference group ignoreCase => cases ignoreCase <;> rfl
  | checkAny units =>
    simp only [encode, length, List.length_cons, length_flatMap_ofUInt16]
    omega
  | checkRange ranges count inverted =>
    simp only [encode, length, List.length_cons, List.length_append, length_ofUInt32,
      UnitRange.length_flatMap_encode]
    omega
  | checkLiteral units =>
    simp only [encode, length, List.length_cons, List.length_append, length_ofUInt32,
      length_flatMap_ofUInt16]
    omega
  | _ => rfl

/-- No encoding is empty. -/
theorem encode_ne_nil (instruction : Instruction UInt32) : instruction.encode ≠ [] := by
  intro empty
  have lengths := instruction.length_encode
  rw [empty] at lengths
  have positive := instruction.length_pos
  simp only [List.length_nil] at lengths
  omega

section Readers

variable {bytes rest : List UInt8} {instruction : Instruction UInt32} {defect : Defect}

theorem decodeWord_eq_ok_iff {build : UInt32 → Instruction UInt32} :
    decodeWord build bytes = .ok (instruction, rest) ↔
      ∃ word, instruction = build word ∧ bytes = ofUInt32 word ++ rest := by
  unfold decodeWord
  constructor
  · intro read
    split at read
    · simp at read
    · rename_i word after taken
      simp only [Except.ok.injEq, Prod.mk.injEq] at read
      obtain ⟨rfl, rfl⟩ := read
      exact ⟨word, rfl, uint32?_eq_some_iff.mp taken⟩
  · rintro ⟨word, rfl, rfl⟩
    rw [uint32?_append]

theorem decodeWord_eq_error_iff {build : UInt32 → Instruction UInt32} :
    decodeWord build bytes = .error defect ↔ defect = .truncated ∧ bytes.length < 4 := by
  unfold decodeWord
  cases taken : uint32? bytes with
  | none =>
    have short := uint32?_eq_none_iff.mp taken
    simp only [Except.error.injEq, short, and_true]
    exact eq_comm
  | some found =>
    have enough := length_of_uint32? taken
    simp only [reduceCtorEq, false_iff, not_and]
    omega

theorem decodeTwoWords_eq_ok_iff {build : UInt32 → UInt32 → Instruction UInt32} :
    decodeTwoWords build bytes = .ok (instruction, rest) ↔
      ∃ first second, instruction = build first second ∧
        bytes = ofUInt32 first ++ ofUInt32 second ++ rest := by
  unfold decodeTwoWords
  constructor
  · intro read
    split at read
    · simp at read
    · rename_i first after taken
      obtain ⟨second, rfl, rfl⟩ := decodeWord_eq_ok_iff.mp read
      refine ⟨first, second, rfl, ?_⟩
      rw [uint32?_eq_some_iff.mp taken, List.append_assoc]
  · rintro ⟨first, second, rfl, rfl⟩
    rw [List.append_assoc, uint32?_append]
    exact decodeWord_eq_ok_iff.mpr ⟨second, rfl, rfl⟩

theorem decodeTwoWords_eq_error_iff {build : UInt32 → UInt32 → Instruction UInt32} :
    decodeTwoWords build bytes = .error defect ↔ defect = .truncated ∧ bytes.length < 8 := by
  unfold decodeTwoWords
  cases taken : uint32? bytes with
  | none =>
    have short := uint32?_eq_none_iff.mp taken
    have shorter : bytes.length < 8 := by omega
    simp only [Except.error.injEq, shorter, and_true]
    exact eq_comm
  | some found =>
    have enough := length_of_uint32? taken
    simp only [decodeWord_eq_error_iff]
    apply and_congr_right
    intro
    omega

theorem decodeThreeWords_eq_ok_iff {build : UInt32 → UInt32 → UInt32 → Instruction UInt32} :
    decodeThreeWords build bytes = .ok (instruction, rest) ↔
      ∃ first second third, instruction = build first second third ∧
        bytes = ofUInt32 first ++ ofUInt32 second ++ ofUInt32 third ++ rest := by
  unfold decodeThreeWords
  constructor
  · intro read
    split at read
    · simp at read
    · rename_i first after taken
      obtain ⟨second, third, rfl, rfl⟩ := decodeTwoWords_eq_ok_iff.mp read
      refine ⟨first, second, third, rfl, ?_⟩
      rw [uint32?_eq_some_iff.mp taken]
      simp only [List.append_assoc]
  · rintro ⟨first, second, third, rfl, rfl⟩
    rw [List.append_assoc, List.append_assoc, uint32?_append]
    exact decodeTwoWords_eq_ok_iff.mpr ⟨second, third, rfl, by rw [List.append_assoc]⟩

theorem decodeThreeWords_eq_error_iff
    {build : UInt32 → UInt32 → UInt32 → Instruction UInt32} :
    decodeThreeWords build bytes = .error defect ↔
      defect = .truncated ∧ bytes.length < 12 := by
  unfold decodeThreeWords
  cases taken : uint32? bytes with
  | none =>
    have short := uint32?_eq_none_iff.mp taken
    have shorter : bytes.length < 12 := by omega
    simp only [Except.error.injEq, shorter, and_true]
    exact eq_comm
  | some found =>
    have enough := length_of_uint32? taken
    simp only [decodeTwoWords_eq_error_iff]
    apply and_congr_right
    intro
    omega

theorem decodeHalf_eq_ok_iff {build : UInt16 → Instruction UInt32} :
    decodeHalf build bytes = .ok (instruction, rest) ↔
      ∃ half, instruction = build half ∧ bytes = ofUInt16 half ++ rest := by
  unfold decodeHalf
  constructor
  · intro read
    split at read
    · simp at read
    · rename_i half after taken
      simp only [Except.ok.injEq, Prod.mk.injEq] at read
      obtain ⟨rfl, rfl⟩ := read
      exact ⟨half, rfl, uint16?_eq_some_iff.mp taken⟩
  · rintro ⟨half, rfl, rfl⟩
    rw [uint16?_append]

theorem decodeHalf_eq_error_iff {build : UInt16 → Instruction UInt32} :
    decodeHalf build bytes = .error defect ↔ defect = .truncated ∧ bytes.length < 2 := by
  unfold decodeHalf
  cases taken : uint16? bytes with
  | none =>
    have short := uint16?_eq_none_iff.mp taken
    simp only [Except.error.injEq, short, and_true]
    exact eq_comm
  | some found =>
    have enough := length_of_uint16? taken
    simp only [reduceCtorEq, false_iff, not_and]
    omega

theorem decodeUnits_eq_ok_iff {build : List UInt16 → Instruction UInt32} {count : Nat} :
    decodeUnits count build bytes = .ok (instruction, rest) ↔
      ∃ units, units.length = count ∧ instruction = build units ∧
        bytes = units.flatMap ofUInt16 ++ rest := by
  unfold decodeUnits
  constructor
  · intro read
    split at read
    · simp at read
    · rename_i units after taken
      simp only [Except.ok.injEq, Prod.mk.injEq] at read
      obtain ⟨rfl, rfl⟩ := read
      obtain ⟨many, rfl⟩ := uint16s?_eq_some_iff.mp taken
      exact ⟨units, many, rfl, rfl⟩
  · rintro ⟨units, many, rfl, rfl⟩
    rw [uint16s?_eq_some_iff.mpr ⟨many, rfl⟩]

theorem decodeUnits_eq_error_iff {build : List UInt16 → Instruction UInt32} {count : Nat} :
    decodeUnits count build bytes = .error defect ↔
      defect = .truncated ∧ bytes.length < 2 * count := by
  unfold decodeUnits
  cases taken : uint16s? count bytes with
  | none =>
    have short := uint16s?_eq_none_iff.mp taken
    simp only [Except.error.injEq, short, and_true]
    exact eq_comm
  | some found =>
    have enough := (length_of_uint16s? taken).2
    simp only [reduceCtorEq, false_iff, not_and]
    omega

/-- A range instruction is read from the encoding of its table. -/
theorem decodeRanges_eq_ok_iff {inverted : Bool} :
    decodeRanges inverted bytes = .ok (instruction, rest) ↔
      ∃ ranges count, 4 * ranges.length < wordLimit ∧
        instruction = .checkRange ranges count inverted ∧
        bytes = ofUInt32 (UInt32.ofNat (4 * ranges.length)) ++ ofUInt32 count ++
          ranges.flatMap UnitRange.encode ++ rest := by
  unfold decodeRanges
  constructor
  · intro read
    split at read
    · simp at read
    · rename_i size afterSize readSize
      split at read
      · simp at read
      · rename_i count afterCount readCount
        split at read
        · simp at read
        · rename_i even
          split at read
          · simp at read
          · rename_i ranges after taken
            simp only [Except.ok.injEq, Prod.mk.injEq] at read
            obtain ⟨rfl, rfl⟩ := read
            obtain ⟨many, rfl⟩ := UnitRange.decode?_eq_some_iff.mp taken
            have bound := toNat_lt_wordLimit size
            have whole : 4 * ranges.length = size.toNat := by omega
            refine ⟨ranges, count, by omega, rfl, ?_⟩
            rw [uint32?_eq_some_iff.mp readSize, uint32?_eq_some_iff.mp readCount, whole,
              UInt32.ofNat_toNat]
            simp only [List.append_assoc]
  · rintro ⟨ranges, count, bound, rfl, rfl⟩
    have size := toNat_ofNat_of_lt_wordLimit bound
    have many : ranges.length = 4 * ranges.length / 4 := by omega
    have taken := UnitRange.decode?_eq_some_iff.mpr
      ⟨many, (rfl : ranges.flatMap UnitRange.encode ++ rest = _)⟩
    simp only [List.append_assoc, uint32?_append, size, Nat.mul_mod_right, ne_eq,
      not_true_eq_false, if_false, taken]

/-- A range instruction is refused when its fixed part or its table is cut off, and when the
size of the table is uneven. -/
theorem decodeRanges_eq_error {inverted : Bool}
    (refused : decodeRanges inverted bytes = .error defect) :
    defect = .truncated ∧ bytes.length < 8 ∨
      ∃ size count ranges, bytes = ofUInt32 size ++ ofUInt32 count ++ ranges ∧
        (size.toNat % 4 ≠ 0 ∧ defect = .invalidRangeTable ∨
          size.toNat % 4 = 0 ∧ ranges.length < size.toNat ∧ defect = .truncated) := by
  unfold decodeRanges at refused
  split at refused
  · rename_i missing
    have short := uint32?_eq_none_iff.mp missing
    simp only [Except.error.injEq] at refused
    exact .inl ⟨refused.symm, by omega⟩
  · rename_i size afterSize readSize
    have sizeLength := length_of_uint32? readSize
    split at refused
    · rename_i missing
      have short := uint32?_eq_none_iff.mp missing
      simp only [Except.error.injEq] at refused
      exact .inl ⟨refused.symm, by omega⟩
    · rename_i count afterCount readCount
      refine .inr ⟨size, count, afterCount, ?_, ?_⟩
      · rw [uint32?_eq_some_iff.mp readSize, uint32?_eq_some_iff.mp readCount,
          List.append_assoc]
      split at refused
      · rename_i uneven
        simp only [Except.error.injEq] at refused
        exact .inl ⟨uneven, refused.symm⟩
      · rename_i even
        split at refused
        · rename_i missing
          have short := UnitRange.decode?_eq_none_iff.mp missing
          simp only [Except.error.injEq] at refused
          exact .inr ⟨by omega, by omega, refused.symm⟩
        · simp at refused

/-- A literal is read from the encoding of its units. -/
theorem decodeLiteral_eq_ok_iff :
    decodeLiteral bytes = .ok (instruction, rest) ↔
      ∃ units, 0 < units.length ∧ units.length < wordLimit ∧ instruction = .checkLiteral units ∧
        bytes = ofUInt32 (UInt32.ofNat units.length) ++ units.flatMap ofUInt16 ++ rest := by
  unfold decodeLiteral
  constructor
  · intro read
    split at read
    · simp at read
    · rename_i count after readCount
      split at read
      · simp at read
      · rename_i some
        obtain ⟨units, many, rfl, rfl⟩ := decodeUnits_eq_ok_iff.mp read
        have bound := toNat_lt_wordLimit count
        refine ⟨units, by omega, by omega, rfl, ?_⟩
        rw [uint32?_eq_some_iff.mp readCount, many, UInt32.ofNat_toNat, List.append_assoc]
  · rintro ⟨units, some, bound, rfl, rfl⟩
    have count := toNat_ofNat_of_lt_wordLimit bound
    have taken := decodeUnits_eq_ok_iff.mpr
      ⟨units, rfl, (rfl : checkLiteral units = _), (rfl : units.flatMap ofUInt16 ++ rest = _)⟩
    simp only [List.append_assoc, uint32?_append, count, Nat.ne_of_gt some, if_false, taken]

/-- A literal is refused when its length is missing or zero, and when its units are cut off. -/
theorem decodeLiteral_eq_error (refused : decodeLiteral bytes = .error defect) :
    defect = .truncated ∧ bytes.length < 4 ∨
      ∃ count units, bytes = ofUInt32 count ++ units ∧
        (count = 0 ∧ defect = .emptyLiteral ∨
          count ≠ 0 ∧ units.length < 2 * count.toNat ∧ defect = .truncated) := by
  unfold decodeLiteral at refused
  split at refused
  · rename_i missing
    simp only [Except.error.injEq] at refused
    exact .inl ⟨refused.symm, uint32?_eq_none_iff.mp missing⟩
  · rename_i count after readCount
    refine .inr ⟨count, after, uint32?_eq_some_iff.mp readCount, ?_⟩
    split at refused
    · rename_i zero
      simp only [Except.error.injEq] at refused
      exact .inl ⟨UInt32.toNat_inj.mp zero, refused.symm⟩
    · rename_i some
      obtain ⟨cause, short⟩ := decodeUnits_eq_error_iff.mp refused
      refine .inr ⟨?_, short, cause⟩
      rintro rfl
      exact some rfl

end Readers

section Operands

variable {bytes rest : List UInt8} {instruction : Instruction UInt32} {defect : Defect}

/-- Read operands belong to an instruction that can be written, and together with the tag they
are its encoding. -/
theorem encode_of_decodeOperands {opcode : Opcode}
    (read : decodeOperands opcode bytes = .ok (instruction, rest)) :
    instruction.Encodable ∧ opcode.tag :: bytes = instruction.encode ++ rest := by
  cases opcode <;> simp only [decodeOperands] at read
  case storeSp | storePosition | positionTest | assertionFailure | startCapture | endCapture
      | counterZero | pushBacktrack | jump =>
    obtain ⟨word, rfl, rfl⟩ := decodeWord_eq_ok_iff.mp read
    exact ⟨trivial, rfl⟩
  case backReference | backReferenceIgnoreCase | check2ByteChar =>
    obtain ⟨half, rfl, rfl⟩ := decodeHalf_eq_ok_iff.mp read
    exact ⟨trivial, rfl⟩
  case assertionSuccess | clearCaptures =>
    obtain ⟨first, second, rfl, rfl⟩ := decodeTwoWords_eq_ok_iff.mp read
    exact ⟨trivial, rfl⟩
  case counterNext =>
    obtain ⟨first, second, third, rfl, rfl⟩ := decodeThreeWords_eq_ok_iff.mp read
    exact ⟨trivial, rfl⟩
  case check2CharOr | check3CharOr | check4CharOr =>
    obtain ⟨units, many, rfl, rfl⟩ := decodeUnits_eq_ok_iff.mp read
    refine ⟨?_, ?_⟩
    · simp only [Encodable]
      omega
    · simp only [encode, many, List.cons_append]
  case checkRange | checkRangeInverted =>
    obtain ⟨ranges, count, bound, rfl, rfl⟩ := decodeRanges_eq_ok_iff.mp read
    exact ⟨bound, rfl⟩
  case checkNChars =>
    obtain ⟨units, some, bound, rfl, rfl⟩ := decodeLiteral_eq_ok_iff.mp read
    exact ⟨⟨some, bound⟩, rfl⟩
  case check1ByteChar =>
    split at read
    · simp at read
    · simp only [Except.ok.injEq, Prod.mk.injEq] at read
      obtain ⟨rfl, rfl⟩ := read
      exact ⟨trivial, rfl⟩
  all_goals
    simp only [Except.ok.injEq, Prod.mk.injEq] at read
    obtain ⟨rfl, rfl⟩ := read
    exact ⟨trivial, rfl⟩

/-- An encoding in front of any rest is read as its instruction. -/
theorem decode_encode_append (writable : instruction.Encodable) (rest : List UInt8) :
    decode (instruction.encode ++ rest) = .ok (instruction, rest) := by
  cases instruction with
  | backReference group ignoreCase =>
    have taken : decodeHalf (backReference · ignoreCase) (ofUInt16 group ++ rest) =
        .ok (backReference group ignoreCase, rest) :=
      decodeHalf_eq_ok_iff.mpr ⟨group, rfl, rfl⟩
    cases ignoreCase <;> exact taken
  | checkAny units =>
    have sizes : units.length = 2 ∨ units.length = 3 ∨ units.length = 4 := by
      simp only [Encodable] at writable
      omega
    rcases sizes with two | three | four
    · simp only [encode, two, List.cons_append, decode, Opcode.ofTag?_tag]
      exact decodeUnits_eq_ok_iff.mpr ⟨units, two, rfl, rfl⟩
    · simp only [encode, three, List.cons_append, decode, Opcode.ofTag?_tag]
      exact decodeUnits_eq_ok_iff.mpr ⟨units, three, rfl, rfl⟩
    · simp only [encode, four, List.cons_append, decode, Opcode.ofTag?_tag]
      exact decodeUnits_eq_ok_iff.mpr ⟨units, four, rfl, rfl⟩
  | checkRange ranges count inverted =>
    cases inverted <;>
      exact decodeRanges_eq_ok_iff.mpr ⟨ranges, count, writable, rfl, rfl⟩
  | checkLiteral units =>
    exact decodeLiteral_eq_ok_iff.mpr ⟨units, writable.1, writable.2, rfl, rfl⟩
  | assertionSuccess slot target =>
    exact decodeTwoWords_eq_ok_iff.mpr ⟨slot, target, rfl, rfl⟩
  | clearCaptures first stop =>
    exact decodeTwoWords_eq_ok_iff.mpr ⟨first, stop, rfl, rfl⟩
  | counterNext slot max target =>
    exact decodeThreeWords_eq_ok_iff.mpr ⟨slot, max, target, rfl, rfl⟩
  | checkUnit unit => exact decodeHalf_eq_ok_iff.mpr ⟨unit, rfl, rfl⟩
  | assertion anchor => cases anchor <;> rfl
  | checkByte _ | failure | success => rfl
  | storeSp word | storePosition word | positionTest word | assertionFailure word
  | startCapture word | endCapture word | counterZero word | pushBacktrack word | jump word =>
    exact decodeWord_eq_ok_iff.mpr ⟨word, rfl, rfl⟩

/-- Decoding reads the encodings of instructions and nothing else. -/
theorem decode_eq_ok_iff :
    decode bytes = .ok (instruction, rest) ↔
      instruction.Encodable ∧ bytes = instruction.encode ++ rest := by
  constructor
  · intro read
    unfold decode at read
    split at read
    · simp at read
    · rename_i tag operands
      split at read
      · simp at read
      · rename_i opcode known
        rw [Opcode.tag_of_ofTag? known]
        exact encode_of_decodeOperands read
  · rintro ⟨writable, rfl⟩
    exact decode_encode_append writable rest

/-- Operands are refused for the defect that `Malformed` finds behind their tag. -/
theorem malformed_of_decodeOperands {opcode : Opcode}
    (refused : decodeOperands opcode bytes = .error defect) :
    Malformed (opcode.tag :: bytes) defect := by
  cases opcode <;> simp only [decodeOperands] at refused
  case storeSp | storePosition | positionTest | assertionFailure | startCapture | endCapture
      | counterZero | pushBacktrack | jump =>
    obtain ⟨rfl, short⟩ := decodeWord_eq_error_iff.mp refused
    exact .shortOperands (by simp only [Opcode.length]; omega)
  case backReference | backReferenceIgnoreCase | check2ByteChar =>
    obtain ⟨rfl, short⟩ := decodeHalf_eq_error_iff.mp refused
    exact .shortOperands (by simp only [Opcode.length]; omega)
  case assertionSuccess | clearCaptures =>
    obtain ⟨rfl, short⟩ := decodeTwoWords_eq_error_iff.mp refused
    exact .shortOperands (by simp only [Opcode.length]; omega)
  case counterNext =>
    obtain ⟨rfl, short⟩ := decodeThreeWords_eq_error_iff.mp refused
    exact .shortOperands (by simp only [Opcode.length]; omega)
  case check2CharOr | check3CharOr | check4CharOr =>
    obtain ⟨rfl, short⟩ := decodeUnits_eq_error_iff.mp refused
    exact .shortOperands (by simp only [Opcode.length]; omega)
  case checkRange =>
    rcases decodeRanges_eq_error refused with
      ⟨rfl, short⟩ | ⟨size, count, ranges, rfl, ⟨uneven, rfl⟩ | ⟨even, short, rfl⟩⟩
    · exact .shortOperands (by simp only [Opcode.length]; omega)
    · exact .unevenTable (.inl rfl) uneven
    · exact .shortTable (.inl rfl) even short
  case checkRangeInverted =>
    rcases decodeRanges_eq_error refused with
      ⟨rfl, short⟩ | ⟨size, count, ranges, rfl, ⟨uneven, rfl⟩ | ⟨even, short, rfl⟩⟩
    · exact .shortOperands (by simp only [Opcode.length]; omega)
    · exact .unevenTable (.inr rfl) uneven
    · exact .shortTable (.inr rfl) even short
  case checkNChars =>
    rcases decodeLiteral_eq_error refused with
      ⟨rfl, short⟩ | ⟨count, units, rfl, ⟨rfl, rfl⟩ | ⟨some, short, rfl⟩⟩
    · exact .shortOperands (by simp only [Opcode.length]; omega)
    · exact .emptyLiteral
    · exact .shortLiteral some short
  case check1ByteChar =>
    split at refused
    · simp only [Except.error.injEq] at refused
      subst refused
      exact .shortOperands (by decide)
    · simp at refused
  all_goals simp at refused

/-- Operands that do not fill the fixed part of their instruction are cut off. -/
theorem decodeOperands_of_short {opcode : Opcode} (short : bytes.length + 1 < opcode.length) :
    decodeOperands opcode bytes = .error .truncated := by
  cases opcode <;> simp only [Opcode.length] at short <;> simp only [decodeOperands]
  case storeSp | storePosition | positionTest | assertionFailure | startCapture | endCapture
      | counterZero | pushBacktrack | jump =>
    exact decodeWord_eq_error_iff.mpr ⟨rfl, by omega⟩
  case backReference | backReferenceIgnoreCase | check2ByteChar =>
    exact decodeHalf_eq_error_iff.mpr ⟨rfl, by omega⟩
  case assertionSuccess | clearCaptures =>
    exact decodeTwoWords_eq_error_iff.mpr ⟨rfl, by omega⟩
  case counterNext => exact decodeThreeWords_eq_error_iff.mpr ⟨rfl, by omega⟩
  case check2CharOr | check3CharOr | check4CharOr =>
    exact decodeUnits_eq_error_iff.mpr ⟨rfl, by omega⟩
  case checkRange | checkRangeInverted =>
    unfold decodeRanges
    cases readSize : uint32? bytes with
    | none => rfl
    | some found =>
      have sizeLength := length_of_uint32? readSize
      have missing : uint32? found.2 = none := uint32?_eq_none_iff.mpr (by omega)
      simp only [missing]
  case checkNChars =>
    have missing : uint32? bytes = none := uint32?_eq_none_iff.mpr (by omega)
    simp only [decodeLiteral, missing]
  case check1ByteChar =>
    have none : bytes = [] := List.eq_nil_of_length_eq_zero (by omega)
    rw [none]
  all_goals omega

/-- Reading the operands of either range instruction reads a table. -/
theorem decodeOperands_table {opcode : Opcode}
    (table : opcode = .checkRange ∨ opcode = .checkRangeInverted) :
    ∃ inverted, ∀ bytes, decodeOperands opcode bytes = decodeRanges inverted bytes := by
  rcases table with rfl | rfl
  · exact ⟨false, fun _ => rfl⟩
  · exact ⟨true, fun _ => rfl⟩

/-- A malformed front is refused for its defect. -/
theorem decode_of_malformed (malformed : Malformed bytes defect) :
    decode bytes = .error defect := by
  cases malformed with
  | unknownOpcode unknown => simp only [decode, unknown]
  | shortOperands short =>
    simp only [decode, Opcode.ofTag?_tag]
    exact decodeOperands_of_short short
  | unevenTable table uneven =>
    obtain ⟨inverted, reads⟩ := decodeOperands_table table
    simp only [decode, Opcode.ofTag?_tag, reads, decodeRanges, List.append_assoc,
      uint32?_append, ne_eq, uneven, not_false_eq_true, if_true]
  | @shortTable opcode size count ranges table even short =>
    obtain ⟨inverted, reads⟩ := decodeOperands_table table
    have missing : UnitRange.decode? (size.toNat / 4) ranges = none :=
      UnitRange.decode?_eq_none_iff.mpr (by omega)
    simp only [decode, Opcode.ofTag?_tag, reads, decodeRanges, List.append_assoc,
      uint32?_append, ne_eq, even, not_true_eq_false, if_false, missing]
  | emptyLiteral =>
    simp only [decode, Opcode.ofTag?_tag, decodeOperands, decodeLiteral, uint32?_append]
    rfl
  | @shortLiteral count units some short =>
    have positive : count.toNat ≠ 0 := fun zero => some (UInt32.toNat_inj.mp zero)
    simp only [decode, Opcode.ofTag?_tag, decodeOperands, decodeLiteral, uint32?_append,
      positive, if_false]
    exact decodeUnits_eq_error_iff.mpr ⟨rfl, short⟩

/-- Decoding refuses an empty list as cut off, and any other for the defect of its front. -/
theorem decode_eq_error_iff :
    decode bytes = .error defect ↔
      bytes = [] ∧ defect = .truncated ∨ Malformed bytes defect := by
  constructor
  · intro refused
    unfold decode at refused
    split at refused
    · simp only [Except.error.injEq] at refused
      exact .inl ⟨rfl, refused.symm⟩
    · split at refused
      · rename_i unknown
        simp only [Except.error.injEq] at refused
        subst refused
        exact .inr (.unknownOpcode unknown)
      · rename_i opcode known
        rw [Opcode.tag_of_ofTag? known]
        exact .inr (malformed_of_decodeOperands refused)
  · rintro (⟨rfl, rfl⟩ | malformed)
    · rfl
    · exact decode_of_malformed malformed

end Operands

end Instruction

end RegexMachine
