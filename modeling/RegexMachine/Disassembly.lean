import RegexMachine.Instruction.Encoding

/-!
# Disassembly

The instructions of a byte stream with their offsets, from the front up to the end of the
stream or to the first place that does not decode.
-/

namespace RegexMachine

/-- An instruction and the offset it stands at. -/
structure Located where
  pc : Nat
  instruction : Instruction UInt32
  deriving DecidableEq, Repr

/-- What a stream decodes to: its instructions, and why decoding ended before the end if it
did. -/
structure Disassembly where
  entries : List Located
  problem : Option CodeError
  deriving DecidableEq, Repr

namespace Disassembly

/-- A disassembly with one more instruction in front. -/
def cons (entry : Located) (later : Disassembly) : Disassembly :=
  { later with entries := entry :: later.entries }

/-- Decode a stream whose first byte stands at the offset `pc`. -/
def ofStream (pc : Nat) (stream : List UInt8) : Disassembly :=
  if stream.isEmpty then ⟨[], none⟩
  else
    match _read : Instruction.decode stream with
    | .error defect => ⟨[], some (.instruction pc defect)⟩
    | .ok (instruction, rest) =>
      cons ⟨pc, instruction⟩ (ofStream (pc + instruction.length) rest)
termination_by stream.length
decreasing_by
  have taken := Instruction.length_of_decode _read
  have positive := instruction.length_pos
  omega

end Disassembly

end RegexMachine
