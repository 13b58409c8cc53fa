import RegexMachine.Program.Validation
import RegexMachine.Proofs.Encoding

/-!
# Instructions in a stream

Instructions written one after the other stand at the sums of the lengths before them
(`Located.layout`). Disassembly finds exactly this layout in front of the first place that is
malformed, every stream has such a front (`Disassembly.exists_front`), and the index of a
layout answers an offset with the instruction that stands there and no other.
-/

namespace RegexMachine

namespace Located

/-- Instructions placed one after the other, the first of them at the offset `pc`. -/
def layout (pc : Nat) : List (Instruction UInt32) → List Located
  | [] => []
  | instruction :: later => ⟨pc, instruction⟩ :: layout (pc + instruction.length) later

end Located

namespace Instruction

variable {Target : Type}

@[simp] theorem totalLength_nil : totalLength ([] : List (Instruction Target)) = 0 := rfl

@[simp] theorem totalLength_cons (instruction : Instruction Target)
    (later : List (Instruction Target)) :
    totalLength (instruction :: later) = instruction.length + totalLength later := rfl

/-- Instructions are written in as many bytes as their lengths add up to. -/
@[simp] theorem length_flatMap_encode (instructions : List (Instruction UInt32)) :
    (instructions.flatMap encode).length = totalLength instructions := by
  induction instructions with
  | nil => rfl
  | cons instruction later inductionHypothesis =>
    rw [List.flatMap_cons, List.length_append, length_encode, inductionHypothesis,
      totalLength_cons]

end Instruction

namespace Located

open Instruction

@[simp] theorem layout_nil (pc : Nat) : layout pc [] = [] := rfl

@[simp] theorem layout_cons (pc : Nat) (instruction : Instruction UInt32)
    (later : List (Instruction UInt32)) :
    layout pc (instruction :: later) =
      ⟨pc, instruction⟩ :: layout (pc + instruction.length) later := rfl

/-- Instructions that follow others stand behind the bytes of those. -/
theorem layout_append (pc : Nat) (before after : List (Instruction UInt32)) :
    layout pc (before ++ after) = layout pc before ++ layout (pc + totalLength before) after := by
  induction before generalizing pc with
  | nil => simp
  | cons instruction before inductionHypothesis =>
    rw [List.cons_append, layout_cons, layout_cons, List.cons_append, inductionHypothesis,
      totalLength_cons, Nat.add_assoc]

/-- A layout holds the instructions in their order. -/
@[simp] theorem map_instruction_layout (pc : Nat) (instructions : List (Instruction UInt32)) :
    (layout pc instructions).map instruction = instructions := by
  induction instructions generalizing pc with
  | nil => rfl
  | cons instruction later inductionHypothesis =>
    rw [layout_cons, List.map_cons, inductionHypothesis]

/-- An entry of a layout stands behind the bytes of the instructions before it. -/
theorem mem_layout_iff {pc : Nat} {instructions : List (Instruction UInt32)} {entry : Located} :
    entry ∈ layout pc instructions ↔
      ∃ before after, instructions = before ++ entry.instruction :: after ∧
        entry.pc = pc + totalLength before := by
  constructor
  · intro member
    induction instructions generalizing pc with
    | nil => simp at member
    | cons instruction later inductionHypothesis =>
      rw [layout_cons, List.mem_cons] at member
      rcases member with rfl | member
      · exact ⟨[], later, rfl, rfl⟩
      · obtain ⟨before, after, rfl, place⟩ := inductionHypothesis member
        refine ⟨instruction :: before, after, rfl, ?_⟩
        rw [place, totalLength_cons, Nat.add_assoc]
  · rintro ⟨before, after, rfl, place⟩
    rw [layout_append, layout_cons, ← place]
    simp

/-- No entry of a layout stands before its first offset. -/
theorem le_pc_of_mem_layout {pc : Nat} {instructions : List (Instruction UInt32)}
    {entry : Located} (member : entry ∈ layout pc instructions) : pc ≤ entry.pc := by
  obtain ⟨before, after, rfl, place⟩ := mem_layout_iff.mp member
  omega

/-- Every entry of a layout ends within the bytes of all instructions. -/
theorem end_le_of_mem_layout {pc : Nat} {instructions : List (Instruction UInt32)}
    {entry : Located} (member : entry ∈ layout pc instructions) :
    entry.pc + entry.instruction.length ≤ pc + totalLength instructions := by
  obtain ⟨before, after, rfl, place⟩ := mem_layout_iff.mp member
  rw [place, totalLength_append, totalLength_cons]
  omega

/-- An entry of a layout that stands behind another one stands behind all its bytes. -/
theorem end_le_pc_of_mem_layout {pc : Nat} {instructions : List (Instruction UInt32)}
    {entry later : Located} (member : entry ∈ layout pc instructions)
    (laterMember : later ∈ layout pc instructions) (behind : entry.pc < later.pc) :
    entry.pc + entry.instruction.length ≤ later.pc := by
  obtain ⟨before, after, rfl, place⟩ := mem_layout_iff.mp member
  rw [layout_append, layout_cons, List.mem_append, List.mem_cons] at laterMember
  rcases laterMember with front | rfl | back
  · have ends := end_le_of_mem_layout front
    omega
  · simp only at behind
    omega
  · have begins := le_pc_of_mem_layout back
    omega

/-- Behind an instruction stands the next one, unless it is the last. -/
theorem exists_next_of_mem_layout {pc : Nat} {instructions : List (Instruction UInt32)}
    {entry : Located} (member : entry ∈ layout pc instructions) :
    instructions.getLast? = some entry.instruction ∨
      ∃ next, ⟨entry.pc + entry.instruction.length, next⟩ ∈ layout pc instructions := by
  obtain ⟨before, after, rfl, place⟩ := mem_layout_iff.mp member
  cases after with
  | nil => exact .inl (by simp)
  | cons next after =>
    refine .inr ⟨next, mem_layout_iff.mpr ⟨before ++ [entry.instruction], after, ?_, ?_⟩⟩
    · simp
    · simp [place, Nat.add_assoc]

end Located

namespace Disassembly

open Instruction Located

@[simp] theorem ofStream_nil (pc : Nat) : ofStream pc [] = ⟨[], none⟩ := by
  rw [ofStream]
  rfl

/-- A malformed front ends the disassembly at once. -/
theorem ofStream_of_malformed {stream : List UInt8} {defect : Defect}
    (malformed : Malformed stream defect) (pc : Nat) :
    ofStream pc stream = ⟨[], some (.instruction pc defect)⟩ := by
  have some : stream.isEmpty = false := by cases malformed <;> rfl
  have refused := decode_of_malformed malformed
  rw [ofStream, some]
  simp only [Bool.false_eq_true, if_false]
  split
  · rename_i found read
    rw [refused] at read
    simp only [Except.error.injEq] at read
    rw [read]
  · rename_i instruction rest read
    rw [refused] at read
    simp at read

/-- An encoded instruction in front of a stream is its first entry. -/
theorem ofStream_encode_append {instruction : Instruction UInt32}
    (writable : instruction.Encodable) (pc : Nat) (rest : List UInt8) :
    ofStream pc (instruction.encode ++ rest) =
      cons ⟨pc, instruction⟩ (ofStream (pc + instruction.length) rest) := by
  have some : (instruction.encode ++ rest).isEmpty = false := by
    simp [instruction.encode_ne_nil]
  have decoded := decode_encode_append writable rest
  rw [ofStream, some]
  simp only [Bool.false_eq_true, if_false]
  split
  · rename_i defect read
    rw [decoded] at read
    simp at read
  · rename_i found tail read
    rw [decoded] at read
    simp only [Except.ok.injEq, Prod.mk.injEq] at read
    obtain ⟨rfl, rfl⟩ := read
    rfl

/-- Encoded instructions in front of a stream are its first entries, in their layout. -/
theorem ofStream_append {instructions : List (Instruction UInt32)}
    (writable : ∀ instruction ∈ instructions, instruction.Encodable) (pc : Nat)
    (rest : List UInt8) :
    ofStream pc (instructions.flatMap encode ++ rest) =
      ⟨layout pc instructions ++ (ofStream (pc + totalLength instructions) rest).entries,
        (ofStream (pc + totalLength instructions) rest).problem⟩ := by
  induction instructions generalizing pc with
  | nil => simp
  | cons instruction later inductionHypothesis =>
    have head := writable instruction List.mem_cons_self
    have tail := inductionHypothesis
      (fun other member => writable other (List.mem_cons_of_mem _ member))
    rw [List.flatMap_cons, List.append_assoc, ofStream_encode_append head, tail, layout_cons,
      totalLength_cons, Nat.add_assoc]
    rfl

/-- A stream of encoded instructions disassembles into their layout. -/
theorem ofStream_flatMap_encode {instructions : List (Instruction UInt32)}
    (writable : ∀ instruction ∈ instructions, instruction.Encodable) (pc : Nat) :
    ofStream pc (instructions.flatMap encode) = ⟨layout pc instructions, none⟩ := by
  have whole := ofStream_append writable pc []
  simpa using whole

/-- Encoded instructions with a malformed rest disassemble into their layout and the defect of
the rest. -/
theorem ofStream_append_malformed {instructions : List (Instruction UInt32)}
    (writable : ∀ instruction ∈ instructions, instruction.Encodable) {rest : List UInt8}
    {defect : Defect} (malformed : Malformed rest defect) (pc : Nat) :
    ofStream pc (instructions.flatMap encode ++ rest) =
      ⟨layout pc instructions,
        some (.instruction (pc + totalLength instructions) defect)⟩ := by
  rw [ofStream_append writable, ofStream_of_malformed malformed, List.append_nil]

/-- Every stream begins with encoded instructions, and what follows them is nothing or
malformed. -/
theorem exists_front (stream : List UInt8) :
    ∃ (instructions : List (Instruction UInt32)) (rest : List UInt8),
      (∀ instruction ∈ instructions, instruction.Encodable) ∧
      stream = instructions.flatMap encode ++ rest ∧
      (rest = [] ∨ ∃ defect, Malformed rest defect) := by
  induction bound : stream.length using Nat.strongRecOn generalizing stream with
  | ind length inductionHypothesis =>
    cases read : decode stream with
    | error defect =>
      rcases decode_eq_error_iff.mp read with ⟨rfl, rfl⟩ | malformed
      · exact ⟨[], [], by simp, rfl, .inl rfl⟩
      · exact ⟨[], stream, by simp, rfl, .inr ⟨defect, malformed⟩⟩
    | ok decoded =>
      obtain ⟨instruction, tail⟩ := decoded
      obtain ⟨writable, rfl⟩ := decode_eq_ok_iff.mp read
      have positive := instruction.length_pos
      have shorter : tail.length < length := by
        rw [← bound, List.length_append, length_encode]
        omega
      obtain ⟨later, rest, laterWritable, rfl, ending⟩ :=
        inductionHypothesis tail.length shorter tail rfl
      refine ⟨instruction :: later, rest, ?_, ?_, ending⟩
      · intro other member
        rcases List.mem_cons.mp member with rfl | member
        · exact writable
        · exact laterWritable other member
      · rw [List.flatMap_cons, List.append_assoc]

/-- A stream is in at most one way a sequence of encoded instructions. -/
theorem flatMap_encode_injective {left right : List (Instruction UInt32)}
    (leftWritable : ∀ instruction ∈ left, instruction.Encodable)
    (rightWritable : ∀ instruction ∈ right, instruction.Encodable)
    (same : left.flatMap encode = right.flatMap encode) : left = right := by
  have leftEntries := ofStream_flatMap_encode leftWritable 0
  rw [same, ofStream_flatMap_encode rightWritable 0] at leftEntries
  have layouts : layout 0 right = layout 0 left := congrArg Disassembly.entries leftEntries
  rw [← map_instruction_layout 0 left, ← layouts, map_instruction_layout]

end Disassembly

namespace OffsetIndex

open Located

/-- The cells of an index for one instruction: the instruction at its offset, and nothing at
the offsets inside it. -/
def cells (entry : Located) : List (Option (Instruction UInt32)) :=
  some entry.instruction :: List.replicate (entry.instruction.length - 1) none

@[simp] theorem length_cells (entry : Located) :
    (cells entry).length = entry.instruction.length := by
  have positive := entry.instruction.length_pos
  rw [cells, List.length_cons, List.length_replicate]
  omega

/-- The cells of a layout hold an instruction exactly at the offset where it stands. -/
theorem join_getElem?_flatMap_cells {pc offset : Nat} {instructions : List (Instruction UInt32)}
    {instruction : Instruction UInt32} :
    ((layout pc instructions).flatMap cells)[offset]?.join = some instruction ↔
      ⟨pc + offset, instruction⟩ ∈ layout pc instructions := by
  induction instructions generalizing pc offset with
  | nil => simp
  | cons head later inductionHypothesis =>
    have positive := head.length_pos
    rw [layout_cons, List.flatMap_cons, List.mem_cons]
    by_cases inside : offset < head.length
    · -- Inside the head, only its first offset is a place of an instruction.
      rw [List.getElem?_append_left (by rw [length_cells]; exact inside)]
      have behind : ⟨pc + offset, instruction⟩ ∉ layout (pc + head.length) later := by
        intro member
        have bound := le_pc_of_mem_layout member
        simp only at bound
        omega
      cases offset with
      | zero =>
        rw [Nat.add_zero] at behind ⊢
        simp [cells, behind, eq_comm]
      | succ offset =>
        have absent : (cells ⟨pc, head⟩)[offset + 1]?.join = none := by
          rw [cells, List.getElem?_cons_succ, List.getElem?_replicate]
          split <;> rfl
        simp [absent, behind]
    · have outside : (cells ⟨pc, head⟩).length ≤ offset := by
        rw [length_cells]
        exact Nat.le_of_not_lt inside
      rw [List.getElem?_append_right outside, length_cells, inductionHypothesis]
      have shifted : pc + head.length + (offset - head.length) = pc + offset := by omega
      rw [shifted]
      constructor
      · exact .inr
      · rintro (same | member)
        · simp only [Located.mk.injEq] at same
          omega
        · exact member

/-- The index of a layout answers an offset with the instruction that stands there. -/
theorem at?_ofEntries_layout {instructions : List (Instruction UInt32)} {pc : Nat}
    {instruction : Instruction UInt32} :
    (ofEntries (layout 0 instructions)).at? pc = some instruction ↔
      ⟨pc, instruction⟩ ∈ layout 0 instructions := by
  have found : ((layout 0 instructions).flatMap cells)[pc]?.join = some instruction ↔ _ :=
    join_getElem?_flatMap_cells
  rw [Nat.zero_add] at found
  rw [← found, at?, ofEntries, List.getElem?_toArray]
  rfl

end OffsetIndex

end RegexMachine
