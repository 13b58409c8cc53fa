import RegexMachine.Proofs.Encoding

/-!
# Decoding inside a stream

An encoded instruction is read as itself wherever it stands in a stream and whatever follows it,
and what is read is the encoding of the instruction. No encoding is the beginning of another one:
one that breaks off is refused as truncated and for no other defect
(`Instruction.decode_of_properPrefix`), because a defect of another kind would still be there in
the whole encoding. `Instruction.decodeAt_exact` states both directions for any offset.
-/

namespace RegexMachine

open LittleEndian

/-- A defect that more bytes can not mend is still there with more bytes behind. -/
theorem Malformed.append {bytes : List UInt8} {defect : Defect}
    (malformed : Malformed bytes defect) (lasting : defect ≠ .truncated) (more : List UInt8) :
    Malformed (bytes ++ more) defect := by
  cases malformed with
  | unknownOpcode unknown => exact .unknownOpcode unknown
  | unevenTable table uneven =>
    rw [List.cons_append, List.append_assoc]
    exact .unevenTable table uneven
  | emptyLiteral =>
    rw [List.cons_append, List.append_assoc]
    exact .emptyLiteral
  | shortOperands | shortTable | shortLiteral => exact absurd rfl lasting

namespace Instruction

variable {instruction : Instruction UInt32}

/-- An encoding that breaks off is refused as truncated. -/
theorem decode_of_properPrefix (writable : instruction.Encodable) {front : List UInt8}
    (begins : front <+: instruction.encode) (breaksOff : front ≠ instruction.encode) :
    decode front = .error .truncated := by
  obtain ⟨missing, whole⟩ := begins
  have read : decode (front ++ missing) = .ok (instruction, []) :=
    decode_eq_ok_iff.mpr ⟨writable, by rw [whole, List.append_nil]⟩
  cases decoded : decode front with
  | ok found =>
    -- The front would be read in the same way with the missing bytes behind, which nothing leaves.
    obtain ⟨other, rest⟩ := found
    obtain ⟨otherWritable, rfl⟩ := decode_eq_ok_iff.mp decoded
    rw [List.append_assoc, decode_encode_append otherWritable] at read
    have empty : rest ++ missing = [] := congrArg Prod.snd (Except.ok.inj read)
    obtain ⟨rfl, rfl⟩ := List.append_eq_nil_iff.mp empty
    exact absurd ((List.append_nil _).symm.trans whole) breaksOff
  | error defect =>
    rcases decode_eq_error_iff.mp decoded with ⟨_, rfl⟩ | malformed
    · rfl
    · by_cases truncated : defect = .truncated
      · rw [truncated]
      · have refused := decode_of_malformed (malformed.append truncated missing)
        rw [read] at refused
        contradiction

/-- The instruction at an offset is read from its encoding, which stands there. -/
theorem decodeAt_eq_ok_iff {stream : List UInt8} {pc length : Nat} :
    decodeAt stream pc = .ok (instruction, length) ↔
      instruction.Encodable ∧ length = instruction.length ∧
        instruction.encode <+: stream.drop pc := by
  rw [decodeAt]
  constructor
  · intro read
    split at read
    · contradiction
    · rename_i found rest decoded
      obtain ⟨rfl, rfl⟩ := Prod.mk.inj (Except.ok.inj read)
      obtain ⟨writable, split⟩ := decode_eq_ok_iff.mp decoded
      exact ⟨writable, rfl, rest, split.symm⟩
  · rintro ⟨writable, rfl, rest, split⟩
    rw [← split, decode_encode_append writable]

/-- What is decoded at an offset is the instruction whose encoding stands there: the length is at
least one and stays within the stream, the bytes over that length are those of the encoding, and
so equal instructions are read from equal bytes. An instruction that can be written is decoded from
its encoding behind and in front of any other bytes, and a stream that ends inside the encoding, or
before it, is refused as truncated at that offset. -/
theorem decodeAt_exact :
    (∀ stream pc instruction length, decodeAt stream pc = .ok (instruction, length) →
      1 ≤ length ∧ pc + length ≤ stream.length ∧ instruction.Encodable ∧
        length = instruction.length ∧ (stream.drop pc).take length = instruction.encode) ∧
    (∀ stream pc other otherPc instruction length otherLength,
      decodeAt stream pc = .ok (instruction, length) →
      decodeAt other otherPc = .ok (instruction, otherLength) →
        (stream.drop pc).take length = (other.drop otherPc).take otherLength) ∧
    ∀ instruction : Instruction UInt32, instruction.Encodable → ∀ before : List UInt8,
      (∀ after, decodeAt (before ++ (instruction.encode ++ after)) before.length =
        .ok (instruction, instruction.encode.length)) ∧
      ∀ front, front <+: instruction.encode → front ≠ instruction.encode →
        decodeAt (before ++ front) before.length =
          .error (.instruction before.length .truncated) := by
  have segment : ∀ stream pc instruction length, decodeAt stream pc = .ok (instruction, length) →
      (stream.drop pc).take length = instruction.encode := by
    intro stream pc instruction length read
    obtain ⟨_, rfl, rest, split⟩ := decodeAt_eq_ok_iff.mp read
    rw [← split, ← instruction.length_encode, List.take_left]
  refine ⟨?_, ?_, ?_⟩
  · intro stream pc instruction length read
    obtain ⟨writable, rfl, begins⟩ := decodeAt_eq_ok_iff.mp read
    have positive := instruction.length_pos
    have within := begins.length_le
    rw [length_encode, List.length_drop] at within
    exact ⟨positive, by omega, writable, rfl, segment _ _ _ _ read⟩
  · intro stream pc other otherPc instruction length otherLength read otherRead
    rw [segment _ _ _ _ read, segment _ _ _ _ otherRead]
  · intro instruction writable before
    constructor
    · intro after
      rw [length_encode, decodeAt_eq_ok_iff, List.drop_left]
      exact ⟨writable, rfl, List.prefix_append _ _⟩
    · intro front begins breaksOff
      rw [decodeAt, List.drop_left, decode_of_properPrefix writable begins breaksOff]

/-- A table of two ranges in the middle of a stream, which breaks off inside the second range. -/
theorem decodeAt_exact_table :
    decodeAt [29, 24, 8, 0, 0, 0, 36, 0, 0, 0, 48, 0, 57, 0, 97, 0, 122, 0, 29] 1 =
        .ok (.checkRange [⟨48, 57⟩, ⟨97, 122⟩] 36 false, 17) ∧
      decodeAt [29, 24, 8, 0, 0, 0, 36, 0, 0, 0, 48, 0, 57, 0, 97, 0] 1 =
        .error (.instruction 1 .truncated) := by
  have writable : (checkRange [⟨48, 57⟩, ⟨97, 122⟩] 36 false).Encodable := by
    simp only [Encodable]
    decide
  obtain ⟨whole, cut⟩ := decodeAt_exact.2.2 _ writable [29]
  exact ⟨whole [29], cut [24, 8, 0, 0, 0, 36, 0, 0, 0, 48, 0, 57, 0, 97, 0] (by decide) (by decide)⟩

end Instruction

end RegexMachine
