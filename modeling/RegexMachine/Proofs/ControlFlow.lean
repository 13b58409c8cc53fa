import RegexMachine.Proofs.Acceptance

/-!
# Control flow of programs

What validation means for a run. The entries of a program are a layout of well-formed
instructions (`Program.exists_wellFormed`), and so an instruction stands at the offset 0, behind
every instruction that falls through and at every target. Operands that name groups or scratch
slots name cells of the state.
-/

namespace RegexMachine

namespace Program

open Instruction Located

variable {program : Program} {pc : Nat} {instruction : Instruction UInt32}

/-- The entries of a program are the layout of a well-formed sequence of instructions. -/
theorem exists_wellFormed (program : Program) :
    ∃ instructions,
      WellFormed program.bytes program.captures program.counters instructions ∧
        program.entries = layout 0 instructions := by
  obtain ⟨instructions, wellFormed⟩ := error?_eq_none_iff.mp program.valid
  refine ⟨instructions, wellFormed, ?_⟩
  rw [program.entries_eq, wellFormed.bytes_eq,
    Disassembly.ofStream_flatMap_encode wellFormed.encodable]

/-- Fetching answers an offset with the instruction that stands there and no other. -/
theorem fetch_eq_some_iff : program.fetch pc = some instruction ↔
    ⟨pc, instruction⟩ ∈ program.entries := by
  obtain ⟨instructions, _, entries⟩ := program.exists_wellFormed
  rw [fetch, program.index_eq, entries]
  exact OffsetIndex.at?_ofEntries_layout

/-- A program with its entries spelled out as a layout. -/
theorem exists_layout (fetched : program.fetch pc = some instruction) :
    ∃ instructions,
      WellFormed program.bytes program.captures program.counters instructions ∧
        program.entries = layout 0 instructions ∧
        ⟨pc, instruction⟩ ∈ layout 0 instructions ∧ instruction ∈ instructions := by
  obtain ⟨instructions, wellFormed, entries⟩ := program.exists_wellFormed
  have member := fetch_eq_some_iff.mp fetched
  rw [entries] at member
  refine ⟨instructions, wellFormed, entries, member, ?_⟩
  obtain ⟨before, after, split, _⟩ := mem_layout_iff.mp member
  rw [split]
  simp

/-- A program begins with an instruction. -/
theorem exists_fetch_zero (program : Program) : ∃ first, program.fetch 0 = some first := by
  obtain ⟨instructions, wellFormed, entries⟩ := program.exists_wellFormed
  obtain ⟨first, later, rfl⟩ := List.exists_cons_of_ne_nil wellFormed.nonempty
  refine ⟨first, fetch_eq_some_iff.mpr ?_⟩
  rw [entries, layout_cons]
  exact List.mem_cons_self

/-- An instruction that stands behind another one stands behind all its bytes. -/
theorem end_le_of_fetch {later : Nat} {other : Instruction UInt32}
    (fetched : program.fetch pc = some instruction)
    (laterFetched : program.fetch later = some other)
    (behind : pc < later) : pc + instruction.length ≤ later := by
  obtain ⟨instructions, _, entries⟩ := program.exists_wellFormed
  rw [fetch_eq_some_iff, entries] at fetched laterFetched
  exact end_le_pc_of_mem_layout fetched laterFetched behind

/-- Behind an instruction that falls through stands another one. -/
theorem exists_fetch_next (fetched : program.fetch pc = some instruction)
    (continues : instruction.fallsThrough = true) :
    ∃ next, program.fetch (pc + instruction.length) = some next := by
  obtain ⟨instructions, wellFormed, entries, member, _⟩ := exists_layout fetched
  rcases exists_next_of_mem_layout member with last | ⟨next, follows⟩
  · have stops := wellFormed.ending _ last
    rw [continues] at stops
    contradiction
  · refine ⟨next, fetch_eq_some_iff.mpr ?_⟩
    rw [entries]
    exact follows

/-- An instruction stands at every target. -/
theorem exists_fetch_target (fetched : program.fetch pc = some instruction) {target : UInt32}
    (jumps : instruction.target? = some target) :
    ∃ next, program.fetch target.toNat = some next := by
  obtain ⟨instructions, wellFormed, entries, _, member⟩ := exists_layout fetched
  obtain ⟨entry, entryMember, place⟩ := wellFormed.targets instruction member target jumps
  refine ⟨entry.instruction, fetch_eq_some_iff.mpr ?_⟩
  rw [entries, ← place]
  exact entryMember

/-- An instruction stands within the bytes of the program. -/
theorem lt_length_of_fetch (fetched : program.fetch pc = some instruction) :
    pc < program.bytes.length := by
  obtain ⟨instructions, wellFormed, _, member, _⟩ := exists_layout fetched
  have ends := end_le_of_mem_layout member
  have positive := instruction.length_pos
  rw [wellFormed.bytes_eq, length_flatMap_encode]
  simp only at ends
  omega

/-- A program has at least the group of the whole match. -/
theorem one_le_captures (program : Program) : 1 ≤ program.captures := by
  obtain ⟨_, wellFormed, _⟩ := program.exists_wellFormed
  exact wellFormed.captured

/-- The cells of group 0 and the resume offset are different cells of a frame. -/
theorem two_lt_frameSize (program : Program) : 2 < program.frameSize := by
  have captured := program.one_le_captures
  unfold frameSize slotCount
  omega

/-- A frame has cells. -/
theorem frameSize_pos (program : Program) : 0 < program.frameSize :=
  Nat.lt_trans Nat.two_pos program.two_lt_frameSize

/-- A frame has a cell for its position. -/
theorem one_lt_frameSize (program : Program) : 1 < program.frameSize :=
  Nat.lt_of_succ_lt program.two_lt_frameSize

/-- The ends of the groups come before the last cell of a frame. -/
theorem slotCount_lt_frameSize (program : Program) : program.slotCount < program.frameSize := by
  rw [frameSize]
  omega

/-- Both cells of a group of the program are ends of groups. -/
theorem groupEnd_lt_slotCount {group : Nat} (inGroups : group < program.captures) :
    2 * group + 1 < program.slotCount := by
  rw [slotCount]
  omega

/-- The end of group 0 is the end of a group. -/
theorem one_lt_slotCount (program : Program) : 1 < program.slotCount := by
  have captured := program.one_le_captures
  rw [slotCount]
  omega

/-- Both cells of a group of the program are cells of a frame. -/
theorem groupEnd_lt_frameSize {group : Nat} (inGroups : group < program.captures) :
    2 * group + 1 < program.frameSize :=
  Nat.lt_trans (groupEnd_lt_slotCount inGroups) program.slotCount_lt_frameSize

/-- A group that an instruction writes is one of the program. -/
theorem group_lt_captures {group : UInt32}
    (fetched : program.fetch pc = some (.startCapture group) ∨
      program.fetch pc = some (.endCapture group)) :
    group.toNat < program.captures := by
  rcases fetched with fetched | fetched
  · obtain ⟨_, wellFormed, _, _, member⟩ := exists_layout fetched
    exact wellFormed.groups group (.inl member)
  · obtain ⟨_, wellFormed, _, _, member⟩ := exists_layout fetched
    exact wellFormed.groups group (.inr member)

/-- Groups are cleared in order and up to at most the last. -/
theorem cleared_le_captures {first stop : UInt32}
    (fetched : program.fetch pc = some (.clearCaptures first stop)) :
    first.toNat ≤ stop.toNat ∧ stop.toNat ≤ program.captures := by
  obtain ⟨_, wellFormed, _, _, member⟩ := exists_layout fetched
  exact wellFormed.cleared first stop member

/-- The cells of groups that are cleared are in order and cells of a frame. -/
theorem cleared_le_frameSize {first stop : UInt32}
    (fetched : program.fetch pc = some (.clearCaptures first stop)) :
    2 * first.toNat ≤ 2 * stop.toNat ∧ 2 * stop.toNat ≤ program.frameSize := by
  obtain ⟨ordered, inGroups⟩ := cleared_le_captures fetched
  have groups := program.slotCount_lt_frameSize
  rw [slotCount] at groups
  omega

/-- A scratch slot that an instruction uses is one of the program. -/
theorem slot_lt_counters (fetched : program.fetch pc = some instruction) {slot : UInt32}
    (uses : instruction.slot? = some slot) : slot.toNat < program.counters := by
  obtain ⟨_, wellFormed, _, _, member⟩ := exists_layout fetched
  exact wellFormed.slots instruction member slot uses

/-- The cell of a scratch slot that an instruction uses is a cell of a frame. -/
theorem scratch_lt_frameSize (fetched : program.fetch pc = some instruction) {slot : UInt32}
    (uses : instruction.slot? = some slot) :
    program.slotCount + slot.toNat < program.frameSize := by
  have inScratch := slot_lt_counters fetched uses
  rw [frameSize]
  omega

end Program

end RegexMachine
