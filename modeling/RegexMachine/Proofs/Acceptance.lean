import RegexMachine.Program
import RegexMachine.Proofs.Layout

/-!
# Acceptance of programs

`WellFormed` says what a program is, and `Refused` says which error a byte list that is none
is refused with, both in terms of encoded instructions and of `Malformed` fronts, without
mention of the checks that `Program.error?` makes. `Program.ofBytes_exact` states that
validation decides between the two.
-/

namespace RegexMachine

/-- A result that passes a check is no error. -/
theorem exists_ok_of_decide {ε β : Type} {result : Except ε β} {check : β → Prop}
    [DecidablePred check]
    (passes : (result.toOption.map fun value => decide (check value)) = some true) :
    ∃ value, result = .ok value ∧ check value := by
  cases result with
  | error error => contradiction
  | ok value => exact ⟨value, rfl, of_decide_eq_true (Option.some.inj passes)⟩

open Instruction

/-- What is wrong with the operands of an instruction, its target apart. The slot of a counter
is judged before its repeat bound. -/
inductive Misplaced (captures counters : Nat) : Instruction UInt32 → Defect → Prop where
  | startCapture {group : UInt32} (beyond : captures ≤ group.toNat) :
      Misplaced captures counters (.startCapture group) .invalidCapture
  | endCapture {group : UInt32} (beyond : captures ≤ group.toNat) :
      Misplaced captures counters (.endCapture group) .invalidCapture
  | clearReversed {first stop : UInt32} (reversed : stop.toNat < first.toNat) :
      Misplaced captures counters (.clearCaptures first stop) .invalidCapture
  | clearBeyond {first stop : UInt32} (beyond : captures < stop.toNat) :
      Misplaced captures counters (.clearCaptures first stop) .invalidCapture
  | slot {instruction : Instruction UInt32} {slot : UInt32}
      (uses : instruction.slot? = some slot) (beyond : counters ≤ slot.toNat) :
      Misplaced captures counters instruction .invalidSlot
  | repeatMax {slot max target : UInt32} (within : slot.toNat < counters)
      (beyond : maxSlot < max.toNat) :
      Misplaced captures counters (.counterNext slot max target) .invalidRepeatMax

/-- An instruction that can be written and whose operands are within the program. -/
structure Admissible (captures counters : Nat) (instruction : Instruction UInt32) : Prop where
  encodable : instruction.Encodable
  placed : ∀ defect, ¬ Misplaced captures counters instruction defect

/-- Whether one of the instructions of a stream stands at an offset. -/
def IsPlace (instructions : List (Instruction UInt32)) (offset : Nat) : Prop :=
  ∃ entry ∈ Located.layout 0 instructions, entry.pc = offset

/-- Whether the target of an instruction, if it has one, is the place of an instruction. -/
def TargetPlaced (instructions : List (Instruction UInt32)) (instruction : Instruction UInt32) :
    Prop :=
  ∀ target, instruction.target? = some target → IsPlace instructions target.toNat

/-- A byte list that is the sequence of these instructions, and a program with this many
groups and scratch slots. -/
structure WellFormed (bytes : List UInt8) (captures counters : Nat)
    (instructions : List (Instruction UInt32)) : Prop where
  captured : 1 ≤ captures
  nonempty : instructions ≠ []
  encodable : ∀ instruction ∈ instructions, instruction.Encodable
  bytes_eq : bytes = instructions.flatMap encode
  /-- Every group that is started or ended is a group of the program. -/
  groups : ∀ group, .startCapture group ∈ instructions ∨ .endCapture group ∈ instructions →
    group.toNat < captures
  /-- Groups are cleared in order, and up to at most the last. -/
  cleared : ∀ first stop, .clearCaptures first stop ∈ instructions →
    first.toNat ≤ stop.toNat ∧ stop.toNat ≤ captures
  /-- Every slot that is read or written is a scratch slot of the program. -/
  slots : ∀ instruction ∈ instructions, ∀ slot, instruction.slot? = some slot →
    slot.toNat < counters
  /-- Every repeat bound is within the reach of a counter. -/
  repeats : ∀ slot max target, .counterNext slot max target ∈ instructions →
    max.toNat ≤ maxSlot
  targets : ∀ instruction ∈ instructions, TargetPlaced instructions instruction
  /-- The last instruction does not continue past the end. -/
  ending : ∀ last, instructions.getLast? = some last → last.fallsThrough = false

/-- The error that a byte list is refused with: that there are no groups, before that there are
no bytes, before the first instruction that is malformed or misplaced, before a last one that
continues past the end, before the first one whose target is no place. -/
inductive Refused (bytes : List UInt8) (captures counters : Nat) : CodeError → Prop where
  | noCaptures (none : captures = 0) : Refused bytes captures counters .noCaptures
  | empty (captured : 1 ≤ captures) (none : bytes = []) :
      Refused bytes captures counters .empty
  | malformed {before : List (Instruction UInt32)} {rest : List UInt8} {defect : Defect}
      (captured : 1 ≤ captures)
      (sound : ∀ instruction ∈ before, Admissible captures counters instruction)
      (bytes_eq : bytes = before.flatMap encode ++ rest) (found : Malformed rest defect) :
      Refused bytes captures counters (.instruction (totalLength before) defect)
  | misplaced {before : List (Instruction UInt32)} {instruction : Instruction UInt32}
      {rest : List UInt8} {defect : Defect} (captured : 1 ≤ captures)
      (sound : ∀ instruction ∈ before, Admissible captures counters instruction)
      (encodable : instruction.Encodable)
      (bytes_eq : bytes = before.flatMap encode ++ (instruction.encode ++ rest))
      (found : Misplaced captures counters instruction defect) :
      Refused bytes captures counters (.instruction (totalLength before) defect)
  | fallsOffEnd {before : List (Instruction UInt32)} {last : Instruction UInt32}
      (captured : 1 ≤ captures)
      (sound : ∀ instruction ∈ before ++ [last], Admissible captures counters instruction)
      (bytes_eq : bytes = (before ++ [last]).flatMap encode)
      (continues : last.fallsThrough = true) :
      Refused bytes captures counters (.instruction (totalLength before) .fallsOffEnd)
  | invalidTarget {before after : List (Instruction UInt32)} {instruction : Instruction UInt32}
      {target : UInt32} (captured : 1 ≤ captures)
      (sound : ∀ other ∈ before ++ instruction :: after, Admissible captures counters other)
      (bytes_eq : bytes = (before ++ instruction :: after).flatMap encode)
      (ending : ∀ last, (before ++ instruction :: after).getLast? = some last →
        last.fallsThrough = false)
      (earlier : ∀ other ∈ before, TargetPlaced (before ++ instruction :: after) other)
      (jumps : instruction.target? = some target)
      (absent : ¬ IsPlace (before ++ instruction :: after) target.toNat) :
      Refused bytes captures counters
        (.instruction (totalLength before) (.invalidTarget target.toNat))

namespace Instruction

variable {captures counters : Nat} {instruction : Instruction UInt32} {defect : Defect}

/-- The operand check finds exactly the misplaced operands. -/
theorem operandDefect?_eq_some_iff :
    instruction.operandDefect? captures counters = some defect ↔
      Misplaced captures counters instruction defect := by
  constructor
  · intro found
    unfold operandDefect? at found
    split at found
    · rename_i misfit
      simp only [Option.some.injEq] at found
      subst found
      cases instruction <;> simp [groupsFit] at misfit
      case startCapture group => exact .startCapture misfit
      case endCapture group => exact .endCapture misfit
      case clearCaptures first stop =>
        rcases misfit with reversed | beyond
        · exact .clearReversed (UInt32.lt_iff_toNat_lt.mp reversed)
        · exact .clearBeyond beyond
    · split at found
      · rename_i misfit
        simp only [Option.some.injEq] at found
        subst found
        unfold slotFits at misfit
        split at misfit
        · simp at misfit
        · rename_i slot uses
          exact .slot uses (by simpa using misfit)
      · rename_i slotFit
        split at found
        · rename_i misfit
          simp only [Option.some.injEq] at found
          subst found
          cases instruction <;> simp [repeatFits] at misfit
          case counterNext slot max target =>
            exact .repeatMax (by simpa [slotFits, slot?] using slotFit) misfit
        · simp at found
  · intro misplaced
    cases misplaced with
    | startCapture beyond => simp [operandDefect?, groupsFit, Nat.not_lt.mpr beyond]
    | endCapture beyond => simp [operandDefect?, groupsFit, Nat.not_lt.mpr beyond]
    | clearReversed reversed =>
      simp [operandDefect?, groupsFit, UInt32.le_iff_toNat_le, Nat.not_le.mpr reversed]
    | clearBeyond beyond => simp [operandDefect?, groupsFit, Nat.not_le.mpr beyond]
    | slot uses beyond =>
      have groups : instruction.groupsFit captures = true := by
        cases instruction <;> simp [slot?] at uses <;> rfl
      have misfit : instruction.slotFits counters = false := by
        simp [slotFits, uses, Nat.not_lt.mpr beyond]
      simp [operandDefect?, groups, misfit]
    | repeatMax within beyond =>
      simp [operandDefect?, groupsFit, slotFits, slot?, repeatFits, within,
        Nat.not_le.mpr beyond]

/-- The operand check passes exactly when nothing is misplaced. -/
theorem operandDefect?_eq_none_iff :
    instruction.operandDefect? captures counters = none ↔
      ∀ defect, ¬ Misplaced captures counters instruction defect := by
  rw [Option.eq_none_iff_forall_ne_some]
  exact forall_congr' fun defect => not_congr operandDefect?_eq_some_iff

end Instruction

namespace Located

/-- The first hit of a search through a layout, with the instructions around it. -/
theorem findSome?_layout_eq_some_iff {α : Type} {search : Located → Option α} {hit : α}
    {pc : Nat} {instructions : List (Instruction UInt32)} :
    (layout pc instructions).findSome? search = some hit ↔
      ∃ before instruction after, instructions = before ++ instruction :: after ∧
        search ⟨pc + totalLength before, instruction⟩ = some hit ∧
        ∀ entry ∈ layout pc before, search entry = none := by
  induction instructions generalizing pc with
  | nil => simp
  | cons head later inductionHypothesis =>
    rw [layout_cons, List.findSome?_cons]
    constructor
    · intro found
      split at found
      · rename_i first hits
        simp only [Option.some.injEq] at found
        subst found
        exact ⟨[], head, later, rfl, hits, by simp⟩
      · rename_i missed
        obtain ⟨before, instruction, after, rfl, hits, earlier⟩ := inductionHypothesis.mp found
        refine ⟨head :: before, instruction, after, rfl, ?_, ?_⟩
        · rw [totalLength_cons, ← Nat.add_assoc]
          exact hits
        · intro entry member
          rw [layout_cons] at member
          rcases List.mem_cons.mp member with rfl | member
          · exact missed
          · exact earlier entry member
    · rintro ⟨before, instruction, after, split, hits, earlier⟩
      cases before with
      | nil =>
        obtain ⟨rfl, rfl⟩ := List.cons.inj split
        rw [totalLength_nil, Nat.add_zero] at hits
        simp only [hits]
      | cons first before =>
        obtain ⟨rfl, rfl⟩ := List.cons.inj split
        have missed := earlier ⟨pc, head⟩ (by simp)
        simp only [missed]
        refine inductionHypothesis.mpr ⟨before, instruction, after, rfl, ?_, ?_⟩
        · rw [totalLength_cons, ← Nat.add_assoc] at hits
          exact hits
        · intro entry member
          exact earlier entry (by rw [layout_cons]; exact List.mem_cons_of_mem _ member)

/-- An instruction of a layout has an entry in it. -/
theorem exists_mem_layout {pc : Nat} {instructions : List (Instruction UInt32)}
    {instruction : Instruction UInt32} (member : instruction ∈ instructions) :
    ∃ entry ∈ layout pc instructions, entry.instruction = instruction := by
  rw [← map_instruction_layout pc instructions] at member
  exact List.mem_map.mp member

/-- The operand search passes a layout exactly when nothing in it is misplaced. -/
theorem operandError?_layout_eq_none_iff {captures counters pc : Nat}
    {instructions : List (Instruction UInt32)} :
    (∀ entry ∈ layout pc instructions, entry.operandError? captures counters = none) ↔
      ∀ instruction ∈ instructions, ∀ defect,
        ¬ Misplaced captures counters instruction defect := by
  simp only [operandError?, Option.map_eq_none_iff]
  constructor
  · intro passes instruction member
    obtain ⟨entry, entryMember, rfl⟩ := exists_mem_layout member
    exact operandDefect?_eq_none_iff.mp (passes entry entryMember)
  · intro placed entry member
    obtain ⟨before, after, rfl, _⟩ := mem_layout_iff.mp member
    exact operandDefect?_eq_none_iff.mpr (placed _ (by simp))

/-- An offset is in the index of a layout exactly when it is the place of an instruction. -/
theorem isSome_at?_layout_iff {instructions : List (Instruction UInt32)} {offset : Nat} :
    ((OffsetIndex.ofEntries (layout 0 instructions)).at? offset).isSome = true ↔
      IsPlace instructions offset := by
  rw [Option.isSome_iff_exists]
  constructor
  · rintro ⟨instruction, found⟩
    exact ⟨_, OffsetIndex.at?_ofEntries_layout.mp found, rfl⟩
  · rintro ⟨entry, member, rfl⟩
    exact ⟨entry.instruction, OffsetIndex.at?_ofEntries_layout.mpr member⟩

/-- The target check of an entry against the index of these instructions. -/
abbrev indexedTargetError? (instructions : List (Instruction UInt32)) (entry : Located) :
    Option CodeError :=
  entry.targetError? fun target =>
    ((OffsetIndex.ofEntries (layout 0 instructions)).at? target).isSome

/-- The target check of an entry passes exactly when its target is placed. -/
theorem targetError?_eq_none_iff {instructions : List (Instruction UInt32)} {entry : Located} :
    entry.indexedTargetError? instructions = none ↔
      TargetPlaced instructions entry.instruction := by
  unfold indexedTargetError? targetError? TargetPlaced
  cases jumps : entry.instruction.target? with
  | none => simp
  | some target => simp [isSome_at?_layout_iff]

/-- The target check of an entry finds a target that is no place. -/
theorem targetError?_eq_some_iff {instructions : List (Instruction UInt32)} {entry : Located}
    {error : CodeError} :
    entry.indexedTargetError? instructions = some error ↔
      ∃ target, entry.instruction.target? = some target ∧
        ¬ IsPlace instructions target.toNat ∧
        error = .instruction entry.pc (.invalidTarget target.toNat) := by
  unfold indexedTargetError? targetError?
  cases jumps : entry.instruction.target? with
  | none => simp
  | some target =>
    constructor
    · intro found
      simp only at found
      split at found
      · simp at found
      · rename_i absent
        simp only [Option.some.injEq] at found
        exact ⟨target, rfl, mt isSome_at?_layout_iff.mpr absent, found.symm⟩
    · rintro ⟨_, same, absent, rfl⟩
      obtain rfl := Option.some.inj same
      exact if_neg (mt isSome_at?_layout_iff.mp absent)

/-- The target search passes a layout exactly when every target is placed. -/
theorem targetError?_layout_eq_none_iff {instructions others : List (Instruction UInt32)}
    {pc : Nat} :
    (∀ entry ∈ layout pc others, entry.indexedTargetError? instructions = none) ↔
      ∀ instruction ∈ others, TargetPlaced instructions instruction := by
  simp only [targetError?_eq_none_iff]
  constructor
  · intro passes instruction member
    obtain ⟨entry, entryMember, rfl⟩ := exists_mem_layout member
    exact passes entry entryMember
  · intro placed entry member
    obtain ⟨before, after, rfl, _⟩ := mem_layout_iff.mp member
    exact placed _ (by simp)

end Located

namespace Program

open Located

variable {captures counters : Nat} {instructions : List (Instruction UInt32)}

/-- A layout whose last instruction does not continue passes the check of its end. -/
theorem endError?_layout_eq_none_iff {pc : Nat} :
    endError? (layout pc instructions) = none ↔
      ∀ last, instructions.getLast? = some last → last.fallsThrough = false := by
  rcases instructions.eq_nil_or_concat with rfl | ⟨before, last, rfl⟩
  · simp [endError?]
  · simp [endError?, layout_append]

/-- A layout whose last instruction continues is refused at that instruction. -/
theorem endError?_layout_eq_some_iff {pc : Nat} {error : CodeError} :
    endError? (layout pc instructions) = some error ↔
      ∃ before last, instructions = before ++ [last] ∧ last.fallsThrough = true ∧
        error = .instruction (pc + totalLength before) .fallsOffEnd := by
  rcases instructions.eq_nil_or_concat with rfl | ⟨before, last, rfl⟩
  · simp [endError?]
  · rw [List.concat_eq_append]
    simp only [endError?, layout_append, layout_cons, layout_nil, List.getLast?_append,
      List.getLast?_singleton, Option.some_or]
    constructor
    · intro found
      split at found
      · rename_i continues
        simp only [Option.some.injEq] at found
        exact ⟨before, last, rfl, continues, found.symm⟩
      · simp at found
    · rintro ⟨others, final, same, continues, rfl⟩
      obtain ⟨rfl, lasts⟩ := List.append_inj' same rfl
      obtain rfl := List.singleton_inj.mp lasts
      rw [if_pos continues]

/-- The checks of a program pass the operands of admissible instructions. -/
theorem findSome?_operandError?_eq_none
    (sound : ∀ instruction ∈ instructions, Admissible captures counters instruction) :
    (layout 0 instructions).findSome? (·.operandError? captures counters) = none :=
  List.findSome?_eq_none_iff.mpr (operandError?_layout_eq_none_iff.mpr
    fun instruction member => (sound instruction member).placed)

/-- A byte list that is refused is refused by the checks, with the same error. -/
theorem error?_of_refused {bytes : List UInt8} {error : CodeError}
    (refused : Refused bytes captures counters error) :
    error? bytes captures counters = some error := by
  cases refused with
  | noCaptures none => rw [error?, if_pos none]
  | empty captured none => rw [error?, if_neg (by omega), none]; rfl
  | @malformed before rest defect captured sound bytes_eq found =>
    have present : bytes.isEmpty = false := by
      rw [bytes_eq]
      cases found <;> simp
    rw [error?, if_neg (by omega), present, bytes_eq, Disassembly.ofStream_append_malformed
      (fun instruction member => (sound instruction member).encodable) found]
    simp [entriesError?, findSome?_operandError?_eq_none sound]
  | @misplaced before instruction rest defect captured sound encodable bytes_eq found =>
    have present : bytes.isEmpty = false := by
      rw [bytes_eq]
      simp [instruction.encode_ne_nil]
    rw [error?, if_neg (by omega), present, bytes_eq, Disassembly.ofStream_append
      (fun instruction member => (sound instruction member).encodable),
      Disassembly.ofStream_encode_append encodable]
    have hit : operandError? captures counters ⟨totalLength before, instruction⟩ =
        some (.instruction (totalLength before) defect) := by
      rw [operandError?, operandDefect?_eq_some_iff.mpr found]
      rfl
    simp [entriesError?, Disassembly.cons, findSome?_operandError?_eq_none sound, hit]
  | @fallsOffEnd before last captured sound bytes_eq continues =>
    have present : bytes.isEmpty = false := by
      rw [bytes_eq]
      simp [last.encode_ne_nil]
    rw [error?, if_neg (by omega), present, bytes_eq, Disassembly.ofStream_flatMap_encode
      fun instruction member => (sound instruction member).encodable]
    have ending := endError?_layout_eq_some_iff.mpr
      ⟨before, last, rfl, continues, (rfl : CodeError.instruction (0 + totalLength before) _ = _)⟩
    simp [entriesError?, findSome?_operandError?_eq_none sound, ending]
  | @invalidTarget before after instruction target captured sound bytes_eq ending earlier jumps
      absent =>
    have present : bytes.isEmpty = false := by
      rw [bytes_eq]
      simp [instruction.encode_ne_nil]
    rw [error?, if_neg (by omega), present, bytes_eq, Disassembly.ofStream_flatMap_encode
      fun instruction member => (sound instruction member).encodable]
    simp only [entriesError?, findSome?_operandError?_eq_none sound,
      endError?_layout_eq_none_iff.mpr ending, Option.none_or, Bool.false_eq_true, if_false]
    refine findSome?_layout_eq_some_iff.mpr ⟨before, instruction, after, rfl, ?_,
      targetError?_layout_eq_none_iff.mpr earlier⟩
    rw [Nat.zero_add]
    exact targetError?_eq_some_iff.mpr ⟨target, jumps, absent, rfl⟩

/-- The instructions of a well-formed program are admissible. -/
theorem admissible_of_wellFormed {bytes : List UInt8}
    (wellFormed : WellFormed bytes captures counters instructions)
    (instruction : Instruction UInt32) (member : instruction ∈ instructions) :
    Admissible captures counters instruction where
  encodable := wellFormed.encodable instruction member
  placed := by
    intro defect misplaced
    cases misplaced with
    | startCapture beyond => exact Nat.not_lt.mpr beyond (wellFormed.groups _ (.inl member))
    | endCapture beyond => exact Nat.not_lt.mpr beyond (wellFormed.groups _ (.inr member))
    | clearReversed reversed =>
      exact Nat.not_le.mpr reversed (wellFormed.cleared _ _ member).1
    | clearBeyond beyond => exact Nat.not_le.mpr beyond (wellFormed.cleared _ _ member).2
    | slot uses beyond => exact Nat.not_lt.mpr beyond (wellFormed.slots _ member _ uses)
    | repeatMax within beyond => exact Nat.not_le.mpr beyond (wellFormed.repeats _ _ _ member)

/-- Admissible instructions with placed targets and an end are a well-formed program. -/
theorem wellFormed_of_admissible (captured : 1 ≤ captures) (nonempty : instructions ≠ [])
    (sound : ∀ instruction ∈ instructions, Admissible captures counters instruction)
    (targets : ∀ instruction ∈ instructions, TargetPlaced instructions instruction)
    (ending : ∀ last, instructions.getLast? = some last → last.fallsThrough = false) :
    WellFormed (instructions.flatMap encode) captures counters instructions where
  captured := captured
  nonempty := nonempty
  encodable instruction member := (sound instruction member).encodable
  bytes_eq := rfl
  groups := by
    rintro group (member | member)
    · exact Nat.lt_of_not_le fun beyond => (sound _ member).placed _ (.startCapture beyond)
    · exact Nat.lt_of_not_le fun beyond => (sound _ member).placed _ (.endCapture beyond)
  cleared := by
    intro first stop member
    constructor
    · exact Nat.le_of_not_lt fun reversed =>
        (sound _ member).placed _ (.clearReversed reversed)
    · exact Nat.le_of_not_lt fun beyond => (sound _ member).placed _ (.clearBeyond beyond)
  slots := by
    intro instruction member slot uses
    exact Nat.lt_of_not_le fun beyond => (sound _ member).placed _ (.slot uses beyond)
  repeats := by
    intro slot max target member
    have within : slot.toNat < counters :=
      Nat.lt_of_not_le fun beyond => (sound _ member).placed _ (.slot rfl beyond)
    exact Nat.le_of_not_lt fun beyond =>
      (sound _ member).placed _ (.repeatMax within beyond)
  targets := targets
  ending := ending

/-- Well-formed programs pass the checks. -/
theorem error?_of_wellFormed {bytes : List UInt8}
    (wellFormed : WellFormed bytes captures counters instructions) :
    error? bytes captures counters = none := by
  have captured := wellFormed.captured
  have present : bytes.isEmpty = false := by
    rw [wellFormed.bytes_eq]
    obtain ⟨first, later, rfl⟩ := List.exists_cons_of_ne_nil wellFormed.nonempty
    simp [first.encode_ne_nil]
  have sound := admissible_of_wellFormed wellFormed
  rw [error?, if_neg (by omega), present, wellFormed.bytes_eq,
    Disassembly.ofStream_flatMap_encode wellFormed.encodable]
  simp only [entriesError?, findSome?_operandError?_eq_none sound,
    endError?_layout_eq_none_iff.mpr wellFormed.ending, Option.none_or, Bool.false_eq_true,
    if_false]
  exact List.findSome?_eq_none_iff.mpr (targetError?_layout_eq_none_iff.mpr wellFormed.targets)

/-- Every byte list is a well-formed program or is refused. -/
theorem wellFormed_or_refused (bytes : List UInt8) (captures counters : Nat) :
    (∃ instructions, WellFormed bytes captures counters instructions) ∨
      ∃ error, Refused bytes captures counters error := by
  by_cases none : captures = 0
  · exact .inr ⟨_, .noCaptures none⟩
  have captured : 1 ≤ captures := by omega
  by_cases empty : bytes = []
  · exact .inr ⟨_, .empty captured empty⟩
  obtain ⟨instructions, rest, writable, bytes_eq, tail⟩ := Disassembly.exists_front bytes
  -- The operands are judged over the whole front before anything else is.
  cases operands : (layout 0 instructions).findSome? (·.operandError? captures counters) with
  | some error =>
    obtain ⟨before, instruction, after, rfl, hit, earlier⟩ :=
      findSome?_layout_eq_some_iff.mp operands
    obtain ⟨defect, found, _⟩ := Option.map_eq_some_iff.mp hit
    have placed := operandError?_layout_eq_none_iff.mp earlier
    have split : bytes =
        before.flatMap encode ++ (instruction.encode ++ (after.flatMap encode ++ rest)) := by
      rw [bytes_eq]
      simp
    have sound : ∀ other ∈ before, Admissible captures counters other :=
      fun other member => ⟨writable other (by simp [member]), placed other member⟩
    exact .inr ⟨_, .misplaced captured sound (writable instruction (by simp)) split
      (operandDefect?_eq_some_iff.mp found)⟩
  | none =>
    have placed := operandError?_layout_eq_none_iff.mp (List.findSome?_eq_none_iff.mp operands)
    have sound : ∀ instruction ∈ instructions, Admissible captures counters instruction :=
      fun instruction member => ⟨writable instruction member, placed instruction member⟩
    rcases tail with rfl | ⟨defect, malformed⟩
    · rw [List.append_nil] at bytes_eq
      have nonempty : instructions ≠ [] := by
        rintro rfl
        exact empty bytes_eq
      cases ends : endError? (layout 0 instructions) with
      | some error =>
        obtain ⟨before, last, rfl, continues, _⟩ := endError?_layout_eq_some_iff.mp ends
        exact .inr ⟨_, .fallsOffEnd captured sound bytes_eq continues⟩
      | none =>
        have ending := endError?_layout_eq_none_iff.mp ends
        cases targets :
            (layout 0 instructions).findSome? (·.indexedTargetError? instructions) with
        | some error =>
          obtain ⟨before, instruction, after, split, hit, earlier⟩ :=
            findSome?_layout_eq_some_iff.mp targets
          obtain ⟨target, jumps, absent, _⟩ := targetError?_eq_some_iff.mp hit
          have earlierPlaced := targetError?_layout_eq_none_iff.mp earlier
          subst split
          exact .inr ⟨_, .invalidTarget captured sound bytes_eq ending earlierPlaced jumps absent⟩
        | none =>
          have targetsPlaced :=
            targetError?_layout_eq_none_iff.mp (List.findSome?_eq_none_iff.mp targets)
          rw [bytes_eq]
          exact .inl ⟨instructions,
            wellFormed_of_admissible captured nonempty sound targetsPlaced ending⟩
    · exact .inr ⟨_, .malformed captured sound bytes_eq malformed⟩

/-- The checks pass exactly the well-formed programs. -/
theorem error?_eq_none_iff {bytes : List UInt8} :
    error? bytes captures counters = none ↔
      ∃ instructions, WellFormed bytes captures counters instructions := by
  constructor
  · intro passes
    rcases wellFormed_or_refused bytes captures counters with found | ⟨error, refused⟩
    · exact found
    · rw [error?_of_refused refused] at passes
      simp at passes
  · rintro ⟨instructions, wellFormed⟩
    exact error?_of_wellFormed wellFormed

/-- The checks find exactly the error that a byte list is refused with. -/
theorem error?_eq_some_iff {bytes : List UInt8} {error : CodeError} :
    error? bytes captures counters = some error ↔ Refused bytes captures counters error := by
  constructor
  · intro found
    rcases wellFormed_or_refused bytes captures counters with ⟨instructions, wellFormed⟩ |
      ⟨other, refused⟩
    · rw [error?_of_wellFormed wellFormed] at found
      simp at found
    · rw [error?_of_refused refused] at found
      obtain rfl := Option.some.inj found
      exact refused
  · exact error?_of_refused

/-- A byte list without an error is a program of its instructions. -/
theorem exists_ofBytes {bytes : List UInt8} (valid : error? bytes captures counters = none) :
    ∃ program, ofBytes bytes captures counters = .ok program ∧ program.bytes = bytes ∧
      program.captures = captures ∧ program.counters = counters ∧
      program.entries = (Disassembly.ofStream 0 bytes).entries := by
  unfold ofBytes
  split
  · rename_i error found
    rw [valid] at found
    simp at found
  · exact ⟨_, rfl, rfl, rfl, rfl, rfl⟩

/-- A byte list that is a program has no error, and the program keeps what it was made of. -/
theorem valid_of_ofBytes {bytes : List UInt8} {program : Program}
    (accepted : ofBytes bytes captures counters = .ok program) :
    error? bytes captures counters = none ∧ program.bytes = bytes ∧
      program.captures = captures ∧ program.counters = counters := by
  unfold ofBytes at accepted
  split at accepted
  · contradiction
  · rename_i valid
    obtain rfl := Except.ok.inj accepted
    exact ⟨valid, rfl, rfl, rfl⟩

/-- A byte list is refused as a program exactly with the error that the checks find. -/
theorem ofBytes_eq_error_iff {bytes : List UInt8} {error : CodeError} :
    ofBytes bytes captures counters = .error error ↔
      error? bytes captures counters = some error := by
  unfold ofBytes
  split
  · rename_i other found
    rw [found, Option.some.injEq, Except.error.injEq]
  · rename_i valid
    simp [valid]

/-- Validation accepts exactly the well-formed programs. An accepted program lists their
instructions one after the other, from the offset 0 to the end of the bytes and in the only
way there is. Any other byte list is refused, with the first of its errors. -/
theorem ofBytes_exact (bytes : List UInt8) (captures counters : Nat) :
    ((∃ program, ofBytes bytes captures counters = .ok program) ↔
      ∃ instructions, WellFormed bytes captures counters instructions) ∧
    (∀ program, ofBytes bytes captures counters = .ok program →
      program.bytes = bytes ∧ program.captures = captures ∧ program.counters = counters ∧
      ∀ instructions, WellFormed bytes captures counters instructions →
        program.entries = layout 0 instructions ∧
        program.entries.map Located.instruction = instructions ∧
        totalLength instructions = bytes.length) ∧
    ∀ error, ofBytes bytes captures counters = .error error ↔
      Refused bytes captures counters error := by
  refine ⟨?_, ?_, ?_⟩
  · rw [← error?_eq_none_iff]
    constructor
    · rintro ⟨program, accepted⟩
      rw [Option.eq_none_iff_forall_ne_some]
      intro error found
      rw [ofBytes_eq_error_iff.mpr found] at accepted
      simp at accepted
    · intro valid
      obtain ⟨program, accepted, _⟩ := exists_ofBytes valid
      exact ⟨program, accepted⟩
  · intro program accepted
    have valid : error? bytes captures counters = none := by
      rw [Option.eq_none_iff_forall_ne_some]
      intro error found
      rw [ofBytes_eq_error_iff.mpr found] at accepted
      simp at accepted
    obtain ⟨found, again, bytes_eq, captures_eq, counters_eq, entries_eq⟩ := exists_ofBytes valid
    rw [accepted] at again
    obtain rfl := Except.ok.inj again
    refine ⟨bytes_eq, captures_eq, counters_eq, ?_⟩
    intro instructions wellFormed
    have entries : program.entries = layout 0 instructions := by
      rw [entries_eq, wellFormed.bytes_eq,
        Disassembly.ofStream_flatMap_encode wellFormed.encodable]
    refine ⟨entries, ?_, ?_⟩
    · rw [entries, map_instruction_layout]
    · rw [wellFormed.bytes_eq, length_flatMap_encode]
  · intro error
    rw [ofBytes_eq_error_iff, error?_eq_some_iff]

end Program

end RegexMachine
