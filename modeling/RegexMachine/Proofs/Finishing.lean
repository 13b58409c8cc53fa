import RegexMachine.Proofs.Assembling

/-!
# Finishing an assembly

What `Assembly.finish` does, in terms of the instructions that were appended. They can be finished
exactly if their operands are within the program, if the labels they use are bound to offsets of
instructions and if the last one does not continue past the end (`Assembly.finish_iff`). A finished
program has every instruction at the offset where it was appended, with its label resolved
(`Assembly.Finished.exists_fetch`).
-/

namespace RegexMachine

open Instruction

/-- Lists that are related one by one are so in front of an element, at it and behind it. -/
theorem exists_split_of_forall₂ {Left Right : Type} {related : Left → Right → Prop}
    {before after : List Left} {left : Left} {rights : List Right}
    (all : List.Forall₂ related (before ++ left :: after) rights) :
    ∃ rightBefore right rightAfter, rights = rightBefore ++ right :: rightAfter ∧
      List.Forall₂ related before rightBefore ∧ related left right := by
  induction before generalizing rights with
  | nil =>
    cases all with
    | cons head tail => exact ⟨[], _, _, rfl, .nil, head⟩
  | cons first before inductionHypothesis =>
    cases all with
    | cons head tail =>
      obtain ⟨rightBefore, right, rightAfter, rfl, front, same⟩ := inductionHypothesis tail
      exact ⟨_ :: rightBefore, right, rightAfter, rfl, .cons head front, same⟩

/-- An element of one of two lists that are related one by one is related to one of the other. -/
theorem exists_mem_of_forall₂ {Left Right : Type} {related : Left → Right → Prop}
    {lefts : List Left} {rights : List Right} (all : List.Forall₂ related lefts rights)
    {left : Left} (member : left ∈ lefts) : ∃ right ∈ rights, related left right := by
  obtain ⟨before, after, rfl⟩ := List.append_of_mem member
  obtain ⟨_, right, _, rfl, _, same⟩ := exists_split_of_forall₂ all
  exact ⟨right, by simp, same⟩

/-- The last elements of lists that are related one by one are related. -/
theorem exists_last_of_forall₂ {Left Right : Type} {related : Left → Right → Prop}
    {lefts : List Left} {rights : List Right} (all : List.Forall₂ related lefts rights)
    {left : Left} (last : lefts.getLast? = some left) :
    ∃ right, rights.getLast? = some right ∧ related left right := by
  have backwards := List.forall₂_reverse_iff.mpr all
  rw [← List.head?_reverse] at last ⊢
  cases found : lefts.reverse with
  | nil =>
    rw [found] at last
    contradiction
  | cons first later =>
    rw [found] at last backwards
    obtain ⟨right, others, same, _, reversed⟩ := List.forall₂_cons_left_iff.mp backwards
    obtain rfl := Option.some.inj last
    exact ⟨right, by rw [reversed]; rfl, same⟩

namespace Instruction

/-- Whether one of the instructions stands at an offset. -/
def StandsAt {Target : Type} (instructions : List (Instruction Target)) (offset : Nat) : Prop :=
  ∃ before instruction after, instructions = before ++ instruction :: after ∧
    offset = totalLength before

/-- An instruction stands in front of the end. -/
theorem StandsAt.lt_totalLength {Target : Type} {instructions : List (Instruction Target)}
    {offset : Nat} (stands : StandsAt instructions offset) :
    offset < totalLength instructions := by
  obtain ⟨before, instruction, after, rfl, rfl⟩ := stands
  have positive := instruction.length_pos
  rw [totalLength_append, totalLength_cons]
  omega

/-- The places of a program are where its instructions stand. -/
theorem standsAt_iff {instructions : List (Instruction UInt32)} {offset : Nat} :
    StandsAt instructions offset ↔ IsPlace instructions offset := by
  simp only [StandsAt, IsPlace, Located.mem_layout_iff, Nat.zero_add]
  constructor
  · rintro ⟨before, instruction, after, split, place⟩
    exact ⟨⟨offset, instruction⟩, ⟨before, after, split, place⟩, rfl⟩
  · rintro ⟨entry, ⟨before, after, split, place⟩, rfl⟩
    exact ⟨before, entry.instruction, after, split, place⟩

/-- An instruction is resolved if its label, if it has one, has a place. -/
theorem exists_resolve {Target Other : Type} {place : Target → Option Other}
    {symbolic : Instruction Target}
    (placed : ∀ target, symbolic.target? = some target → ∃ other, place target = some other) :
    ∃ instruction, symbolic.resolve place = some instruction := by
  cases symbolic
  case assertionSuccess | counterNext | pushBacktrack | jump =>
    obtain ⟨other, found⟩ := placed _ rfl
    exact ⟨_, by rw [resolve, found]; rfl⟩
  all_goals exact ⟨_, rfl⟩

namespace Resolved

variable {Target Other : Type} {meant : Target → Other → Prop} {symbolic : Instruction Target}
  {instruction : Instruction Other}

/-- Resolving a target leaves the other operands alone. -/
theorem operandDefect?_eq (resolved : Resolved meant symbolic instruction)
    (captures counters : Nat) :
    instruction.operandDefect? captures counters = symbolic.operandDefect? captures counters := by
  cases resolved <;> rfl

/-- A resolved instruction falls through where the symbolic one does. -/
theorem fallsThrough_eq (resolved : Resolved meant symbolic instruction) :
    instruction.fallsThrough = symbolic.fallsThrough := by
  cases resolved <;> rfl

/-- A resolved instruction is passed over where the symbolic one is. -/
theorem isPassedOver_eq (resolved : Resolved meant symbolic instruction) :
    instruction.isPassedOver = symbolic.isPassedOver := by
  cases resolved <;> rfl

/-- The target of a symbolic instruction is related to that of the resolved one. -/
theorem exists_target (resolved : Resolved meant symbolic instruction) {target : Target}
    (jumps : symbolic.target? = some target) :
    ∃ other, instruction.target? = some other ∧ meant target other := by
  cases resolved with
  | assertionSuccess _ related | counterNext _ _ related | pushBacktrack related | jump related =>
    obtain rfl := Option.some.inj jumps
    exact ⟨_, rfl, related⟩
  | _ => contradiction

/-- The target of a resolved instruction is related to that of the symbolic one. -/
theorem exists_symbolic_target (resolved : Resolved meant symbolic instruction) {other : Other}
    (jumps : instruction.target? = some other) :
    ∃ target, symbolic.target? = some target ∧ meant target other := by
  cases resolved with
  | assertionSuccess _ related | counterNext _ _ related | pushBacktrack related | jump related =>
    obtain rfl := Option.some.inj jumps
    exact ⟨_, rfl, related⟩
  | _ => contradiction

/-- Two ways to resolve an instruction differ in nothing but its target. -/
theorem join {Third : Type} {otherMeant : Target → Third → Prop} {other : Instruction Third}
    {related : Other → Third → Prop} (resolved : Resolved meant symbolic instruction)
    (again : Resolved otherMeant symbolic other)
    (targets : ∀ target, symbolic.target? = some target → ∀ first second, meant target first →
      otherMeant target second → related first second) :
    Resolved related instruction other := by
  cases resolved with
  | assertionSuccess _ first | counterNext _ _ first | pushBacktrack first | jump first =>
    cases again
    constructor
    exact targets _ rfl _ _ first (by assumption)
  | _ =>
    cases again
    constructor

/-- Resolved instructions take as many bytes as the symbolic ones. -/
theorem totalLength_eq {symbolics : List (Instruction Target)}
    {instructions : List (Instruction Other)}
    (resolved : List.Forall₂ (Resolved meant) symbolics instructions) :
    totalLength instructions = totalLength symbolics := by
  induction resolved with
  | nil => rfl
  | cons head _ inductionHypothesis =>
    rw [totalLength_cons, totalLength_cons, head.length_eq, inductionHypothesis]

/-- The filter of an instruction does not depend on its target. -/
theorem unitFilter?_eq (resolved : Resolved meant symbolic instruction) (ignoreCase : Bool) :
    instruction.unitFilter? ignoreCase = symbolic.unitFilter? ignoreCase := by
  cases resolved with
  | checkRange ranges count inverted => cases inverted <;> rfl
  | checkLiteral units => cases units <;> rfl
  | _ => rfl

/-- Resolved instructions stand where the symbolic ones do. -/
theorem standsAt_iff {symbolics : List (Instruction Target)}
    {instructions : List (Instruction Other)}
    (resolved : List.Forall₂ (Resolved meant) symbolics instructions) {offset : Nat} :
    StandsAt instructions offset ↔ StandsAt symbolics offset := by
  constructor
  · rintro ⟨front, instruction, rest, rfl, rfl⟩
    have backwards : List.Forall₂ (flip (Resolved meant)) (front ++ instruction :: rest)
        symbolics := resolved.flip
    obtain ⟨before, symbolic, after, split, same, _⟩ := exists_split_of_forall₂ backwards
    exact ⟨before, symbolic, after, split, totalLength_eq same.flip⟩
  · rintro ⟨before, symbolic, after, rfl, rfl⟩
    obtain ⟨front, instruction, rest, split, same, _⟩ := exists_split_of_forall₂ resolved
    exact ⟨front, instruction, rest, split, (totalLength_eq same).symm⟩

/-- The front of a program admits a filter whatever the targets are. -/
theorem leadingFilter?_eq {symbolics : List (Instruction Target)}
    {instructions : List (Instruction Other)}
    (resolved : List.Forall₂ (Resolved meant) symbolics instructions) (ignoreCase : Bool) :
    leadingFilter? ignoreCase instructions = leadingFilter? ignoreCase symbolics := by
  induction resolved with
  | nil => rfl
  | cons head _ inductionHypothesis =>
    rw [leadingFilter?, leadingFilter?, inductionHypothesis, head.isPassedOver_eq,
      head.unitFilter?_eq]

end Resolved

end Instruction

namespace Assembly

variable {assembly : Assembly} {directives : List Directive} {captures counters : Nat}
  {program : Program} {instructions : List (Instruction UInt32)}

/-- What a label stands for once the assembly is finished. -/
def Means (assembly : Assembly) (label : Label) (target : UInt32) : Prop :=
  assembly.place label = some target

/-- What a program is that an assembly is finished to: its instructions are those that were
appended, with the labels resolved, and it has the settings of the assembly. -/
structure Finished (assembly : Assembly) (captures counters : Nat) (program : Program)
    (instructions : List (Instruction UInt32)) : Prop where
  resolved : List.Forall₂ (Resolved assembly.Means) assembly.emitted.toList instructions
  wellFormed : WellFormed program.bytes captures counters instructions
  entries : program.entries = Located.layout 0 instructions
  captures : program.captures = captures
  counters : program.counters = counters
  ignoreCase : program.ignoreCase = assembly.ignoreCase
  filter : program.filter =
    if assembly.deriveFilter then
      leadingFilter? assembly.ignoreCase assembly.emitted.toList
    else assembly.filter

/-- What the instructions of an assembly have to satisfy for it to be finished. -/
structure Finishable (assembly : Assembly) (captures counters : Nat) : Prop where
  captured : 1 ≤ captures
  nonempty : assembly.emitted.toList ≠ []
  operands : ∀ symbolic ∈ assembly.emitted.toList,
    symbolic.operandDefect? captures counters = none
  /-- Every label that is used is bound to the offset of an instruction. -/
  targets : ∀ symbolic ∈ assembly.emitted.toList, ∀ label, symbolic.target? = some label →
    ∃ target, assembly.Means label target ∧ StandsAt assembly.emitted.toList target.toNat
  ending : ∀ last, assembly.emitted.toList.getLast? = some last → last.fallsThrough = false

/-- Instructions that are resolved from those of an assembly can be written. -/
theorem encodable_of_applyAll (applied : empty.applyAll directives = .ok assembly)
    (resolved : List.Forall₂ (Resolved assembly.Means) assembly.emitted.toList instructions) :
    ∀ instruction ∈ instructions, instruction.Encodable := by
  obtain ⟨symbolics, appended, emitted⟩ := exists_emitted_of_applyAll applied
  have listed : assembly.emitted.toList = symbolics := appended
  exact emitted.encodable (listed ▸ resolved)

/-- A program that an assembly is finished to is what the assembly says. -/
theorem exists_finished (applied : empty.applyAll directives = .ok assembly)
    (finished : assembly.finish captures counters = .ok program) :
    ∃ instructions, assembly.Finished captures counters program instructions := by
  rw [finish] at finished
  split at finished
  · contradiction
  · rename_i instructions resolves
    split at finished
    · contradiction
    · rename_i plain accepted
      obtain rfl := Except.ok.inj finished
      have resolved : List.Forall₂ (Resolved assembly.Means) assembly.emitted.toList
          instructions := forall₂_resolved resolves
      have encodable := encodable_of_applyAll applied resolved
      obtain ⟨valid, bytes, captured, counted⟩ := Program.valid_of_ofBytes accepted
      obtain ⟨others, wellFormed⟩ := Program.error?_eq_none_iff.mp valid
      obtain rfl := Disassembly.flatMap_encode_injective encodable wellFormed.encodable
        wellFormed.bytes_eq
      have entries : plain.entries = Located.layout 0 instructions := by
        rw [plain.entries_eq, bytes, Disassembly.ofStream_flatMap_encode encodable]
      refine ⟨instructions, resolved, bytes ▸ wellFormed, entries, captured, counted, rfl, ?_⟩
      rw [← Resolved.leadingFilter?_eq resolved, ← Located.map_instruction_layout 0 instructions,
        ← entries]
      rfl

namespace Finished

variable (finished : assembly.Finished captures counters program instructions)
include finished

/-- A finished program takes the bytes that the assembly has counted. -/
theorem length_bytes : program.bytes.length = totalLength assembly.emitted.toList := by
  rw [finished.wellFormed.bytes_eq, length_flatMap_encode,
    Resolved.totalLength_eq finished.resolved]

/-- An instruction that was appended is resolved, and stands where it was appended. -/
theorem exists_fetch {before after : List (Instruction Label)} {symbolic : Instruction Label}
    (split : assembly.emitted.toList = before ++ symbolic :: after) :
    ∃ instruction, program.fetch (totalLength before) = some instruction ∧
      symbolic.Resolved assembly.Means instruction := by
  have resolved := finished.resolved
  rw [split] at resolved
  obtain ⟨front, instruction, rest, rfl, frontResolved, same⟩ := exists_split_of_forall₂ resolved
  refine ⟨instruction, ?_, same⟩
  rw [Program.fetch_eq_some_iff, finished.entries, ← Resolved.totalLength_eq frontResolved]
  exact Located.mem_layout_iff.mpr ⟨front, rest, rfl, (Nat.zero_add _).symm⟩

end Finished

/-- Instructions whose labels have places are resolved. -/
theorem exists_resolve {place : Label → Option UInt32} {symbolics : List (Instruction Label)}
    (placed : ∀ symbolic ∈ symbolics, ∀ label, symbolic.target? = some label →
      ∃ target, place label = some target) (pc : Nat) :
    ∃ instructions, resolve place pc symbolics = .ok instructions := by
  induction symbolics generalizing pc with
  | nil => exact ⟨[], rfl⟩
  | cons symbolic later inductionHypothesis =>
    obtain ⟨instruction, found⟩ :=
      Instruction.exists_resolve (placed symbolic List.mem_cons_self)
    obtain ⟨others, rest⟩ := inductionHypothesis
      (fun other member => placed other (List.mem_cons_of_mem _ member)) (pc + symbolic.length)
    exact ⟨instruction :: others, by rw [resolve, found]; simp only [rest]⟩

/-- An assembly that was finished could be. -/
theorem Finished.finishable (finished : assembly.Finished captures counters program instructions) :
    assembly.Finishable captures counters := by
  have wellFormed := finished.wellFormed
  have resolved := finished.resolved
  refine ⟨wellFormed.captured, ?_, ?_, ?_, ?_⟩
  · intro none
    rw [none] at resolved
    cases resolved
    exact wellFormed.nonempty rfl
  · intro symbolic member
    obtain ⟨instruction, present, same⟩ := exists_mem_of_forall₂ resolved member
    rw [← same.operandDefect?_eq, operandDefect?_eq_none_iff]
    exact (Program.admissible_of_wellFormed wellFormed instruction present).placed
  · intro symbolic member label jumps
    obtain ⟨instruction, present, same⟩ := exists_mem_of_forall₂ resolved member
    obtain ⟨target, goes, means⟩ := same.exists_target jumps
    refine ⟨target, means, (Resolved.standsAt_iff resolved).mp (Instruction.standsAt_iff.mpr ?_)⟩
    exact wellFormed.targets instruction present target goes
  · intro last isLast
    obtain ⟨final, isFinal, same⟩ := exists_last_of_forall₂ resolved isLast
    rw [← same.fallsThrough_eq]
    exact wellFormed.ending final isFinal

/-- An assembly is finished to a program exactly if its instructions have operands within the
program and labels that are bound to offsets of instructions, and do not run off the end. -/
theorem finish_iff (applied : empty.applyAll directives = .ok assembly) :
    (∃ program, assembly.finish captures counters = .ok program) ↔
      assembly.Finishable captures counters := by
  constructor
  · rintro ⟨program, finished⟩
    obtain ⟨instructions, whole⟩ := exists_finished applied finished
    exact whole.finishable
  · intro finishable
    obtain ⟨instructions, resolves⟩ := exists_resolve (fun symbolic member label jumps => by
      obtain ⟨target, means, _⟩ := finishable.targets symbolic member label jumps
      exact ⟨target, means⟩) 0
    have resolved : List.Forall₂ (Resolved assembly.Means) assembly.emitted.toList instructions :=
      forall₂_resolved resolves
    have encodable := encodable_of_applyAll applied resolved
    have backwards : List.Forall₂ (flip (Resolved assembly.Means)) instructions
        assembly.emitted.toList := resolved.flip
    have nonempty : instructions ≠ [] := by
      rintro rfl
      exact finishable.nonempty (List.forall₂_nil_right_iff.mp resolved)
    have sound : ∀ instruction ∈ instructions, Admissible captures counters instruction := by
      intro instruction member
      obtain ⟨symbolic, present, same⟩ := exists_mem_of_forall₂ backwards member
      refine ⟨encodable instruction member, operandDefect?_eq_none_iff.mp ?_⟩
      rw [same.operandDefect?_eq]
      exact finishable.operands symbolic present
    have targets : ∀ instruction ∈ instructions, TargetPlaced instructions instruction := by
      intro instruction member target goes
      obtain ⟨symbolic, present, same⟩ := exists_mem_of_forall₂ backwards member
      obtain ⟨label, jumps, means⟩ := same.exists_symbolic_target goes
      obtain ⟨place, again, stands⟩ := finishable.targets symbolic present label jumps
      obtain rfl := Option.some.inj (means.symm.trans again)
      exact Instruction.standsAt_iff.mp ((Resolved.standsAt_iff resolved).mpr stands)
    have ending : ∀ last, instructions.getLast? = some last → last.fallsThrough = false := by
      intro last isLast
      obtain ⟨final, isFinal, same⟩ := exists_last_of_forall₂ backwards isLast
      rw [same.fallsThrough_eq]
      exact finishable.ending final isFinal
    obtain ⟨plain, accepted, _⟩ := Program.exists_ofBytes (Program.error?_eq_none_iff.mpr
      ⟨instructions, Program.wellFormed_of_admissible finishable.captured nonempty sound targets
        ending⟩)
    exact ⟨assembly.configure plain, by rw [finish, resolves]; simp only [accepted]⟩

end Assembly

end RegexMachine
