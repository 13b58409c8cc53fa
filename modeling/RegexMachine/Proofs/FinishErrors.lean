import Mathlib.Data.Nat.Find
import RegexMachine.Proofs.Finishing

/-!
# Why finishing fails

What `Assembly.finish` answers, in terms of the directives that built the assembly. Resolving fails
at the first branch whose label no directive binds (`resolve_eq_error_iff`). After that a refusal
can not be about the encoding, because the instructions were written by the assembly, and a target
is wrong only if its label was bound behind the last instruction: a label that is bound anywhere
else stands for the offset of the instruction that was appended next
(`standsAt_iff_not_boundAtEnd`). `Assembly.reports_of_finish` puts these together.
-/

namespace RegexMachine

open Instruction

namespace Instruction

variable {Target : Type}

/-- The operands of an instruction are within the program if its groups, its slot and its repeat
bound are. -/
theorem operandDefect?_eq_none_iff_fits {captures counters : Nat}
    {instruction : Instruction Target} :
    instruction.operandDefect? captures counters = none ↔
      instruction.groupsFit captures = true ∧ instruction.slotFits counters = true ∧
        instruction.repeatFits = true := by
  rw [operandDefect?]
  cases instruction.groupsFit captures <;> cases instruction.slotFits counters <;>
    cases instruction.repeatFits <;> simp

end Instruction

namespace Disassembly

/-- A sequence of encoded instructions has no malformed part behind its first instructions. -/
theorem not_malformed_behind {instructions before : List (Instruction UInt32)} {rest : List UInt8}
    {defect : Defect} (writable : ∀ instruction ∈ instructions, instruction.Encodable)
    (beforeWritable : ∀ instruction ∈ before, instruction.Encodable)
    (same : instructions.flatMap encode = before.flatMap encode ++ rest) :
    ¬ Malformed rest defect := by
  intro malformed
  have whole := ofStream_flatMap_encode writable 0
  rw [same, ofStream_append_malformed beforeWritable malformed] at whole
  cases congrArg Disassembly.problem whole

end Disassembly

namespace Assembly

variable {assembly final : Assembly} {directives : List Directive} {label : Label}
  {captures counters : Nat}

/-- The offset at which one of the directives appends a branch to a label. -/
def BranchesAt (assembly : Assembly) (directives : List Directive) (label : Label) (pc : Nat) :
    Prop :=
  ∃ before instruction after prior, directives = before ++ .emit instruction :: after ∧
    assembly.applyAll before = .ok prior ∧ prior.pc = pc ∧ instruction.target? = some label

/-- The offset of the first branch whose label is not bound by any of the directives. -/
structure FirstUnbound (directives : List Directive) (pc : Nat) : Prop where
  unbound : ∃ label, empty.BranchesAt directives label pc ∧ .bind label ∉ directives
  earlier : ∀ label place, empty.BranchesAt directives label place → place < pc →
    .bind label ∈ directives

/-- Whether a label is bound behind the last directive that emits. -/
def BoundAtEnd (directives : List Directive) (label : Label) : Prop :=
  ∃ before after, directives = before ++ .bind label :: after ∧
    ∀ directive ∈ after, directive.isEmission = false

/-- What directives have to satisfy for their assembly to be finished. -/
structure Completes (directives : List Directive) (captures counters : Nat) : Prop where
  captured : 1 ≤ captures
  emits : ∃ directive ∈ directives, directive.isEmission = true
  /-- Every group that is started or ended is a group of the program. -/
  groups : ∀ group, .emit (.startCapture group) ∈ directives ∨
    .emit (.endCapture group) ∈ directives → group.toNat < captures
  /-- Groups are cleared in order, and up to at most the last. -/
  cleared : ∀ first stop, .emit (.clearCaptures first stop) ∈ directives →
    first.toNat ≤ stop.toNat ∧ stop.toNat ≤ captures
  /-- Every slot that is read or written is a scratch slot of the program. -/
  slots : ∀ instruction slot, .emit instruction ∈ directives → instruction.slot? = some slot →
    slot.toNat < counters
  /-- Every repeat bound is within the reach of a counter. -/
  repeats : ∀ slot max label, .emit (.counterNext slot max label) ∈ directives →
    max.toNat ≤ maxSlot
  /-- The last directive that emits appends an instruction that does not continue. -/
  ending : ∀ before last after symbolic, directives = before ++ last :: after →
    (∀ directive ∈ after, directive.isEmission = false) → last.Emits symbolic →
    symbolic.fallsThrough = false
  /-- Every branch has a label that is bound, and an instruction is appended behind it. -/
  bound : ∀ instruction label, .emit instruction ∈ directives →
    instruction.target? = some label → .bind label ∈ directives ∧ ¬ BoundAtEnd directives label

section Emission

variable {directive : Directive} {symbolic : Instruction Label}

/-- A directive that appends an instruction emits. -/
theorem isEmission_of_emits (emits : directive.Emits symbolic) : directive.isEmission = true := by
  cases emits <;> rfl

/-- A directive appends one instruction only. -/
theorem eq_of_emits {other : Instruction Label} (emits : directive.Emits symbolic)
    (again : directive.Emits other) : symbolic = other := by
  cases emits with
  | instruction =>
    cases again
    rfl
  | narrow fits =>
    cases again with
    | narrow => rfl
    | wide tooLarge => omega
  | wide tooLarge =>
    cases again with
    | narrow fits => omega
    | wide => rfl
  | table inverted counted =>
    cases again with
    | table _ countedAgain =>
      obtain rfl := UInt32.toNat_inj.mp (counted.trans countedAgain.symm)
      rfl

/-- Only the directive for a branch appends one. -/
theorem eq_emit_of_target? (emits : directive.Emits symbolic)
    (jumps : symbolic.target? = some label) : directive = .emit symbolic := by
  cases emits with
  | instruction => rfl
  | narrow | wide | table => contradiction

/-- An assembly grows by one instruction for each directive that emits. -/
theorem length_emitted (applied : assembly.applyAll directives = .ok final) :
    final.emitted.toList.length =
      assembly.emitted.toList.length + directives.countP Directive.isEmission := by
  induction directives generalizing assembly with
  | nil =>
    obtain rfl := Except.ok.inj applied
    rfl
  | cons directive later inductionHypothesis =>
    rw [applyAll] at applied
    split at applied
    · contradiction
    · rename_i next first
      rw [inductionHypothesis applied]
      cases emission : directive.isEmission with
      | true =>
        obtain ⟨appended, _, _, rfl⟩ := exists_emits_of_apply first emission
        rw [List.countP_cons_of_pos emission, append, Array.toList_push, List.length_append,
          List.length_singleton]
        omega
      | false =>
        rw [List.countP_cons_of_neg (by simp [emission]), (emitted_of_apply first emission).1]

/-- Every instruction behind those that an assembly began with was appended by a directive, behind
the instructions before it. -/
theorem exists_emits_of_emitted {front rest : List (Instruction Label)}
    (applied : assembly.applyAll directives = .ok final)
    (behind : assembly.emitted.toList.length ≤ front.length)
    (split : final.emitted.toList = front ++ symbolic :: rest) :
    ∃ before directive after prior, directives = before ++ directive :: after ∧
      assembly.applyAll before = .ok prior ∧ prior.emitted.toList = front ∧
      directive.Emits symbolic := by
  induction directives generalizing assembly with
  | nil =>
    obtain rfl := Except.ok.inj applied
    rw [split, List.length_append, List.length_cons] at behind
    omega
  | cons directive later inductionHypothesis =>
    rw [applyAll] at applied
    split at applied
    · contradiction
    · rename_i next first
      -- The instruction is the one that this directive appends, or a later one.
      by_cases here : directive.isEmission = true ∧
          assembly.emitted.toList.length = front.length
      · obtain ⟨emission, same⟩ := here
        obtain ⟨appended, emits, _, rfl⟩ := exists_emits_of_apply first emission
        obtain ⟨symbolics, whole, _⟩ := exists_emitted_of_applyAll applied
        rw [split, append, Array.toList_push, List.append_assoc] at whole
        obtain ⟨rfl, tails⟩ := List.append_inj' whole (by
          have lengths := congrArg List.length whole
          simp only [List.length_append, List.length_cons, List.length_nil] at lengths ⊢
          omega)
        obtain ⟨rfl, _⟩ := List.cons.inj tails
        exact ⟨[], directive, later, assembly, rfl, rfl, rfl, emits⟩
      · have beyond : next.emitted.toList.length ≤ front.length := by
          cases emission : directive.isEmission with
          | true =>
            obtain ⟨appended, _, _, rfl⟩ := exists_emits_of_apply first emission
            rw [append, Array.toList_push, List.length_append, List.length_singleton]
            have apart : assembly.emitted.toList.length ≠ front.length :=
              fun same => here ⟨emission, same⟩
            omega
          | false =>
            rw [(emitted_of_apply first emission).1]
            exact behind
        obtain ⟨before, emitting, after, prior, rfl, reached, place, emits⟩ :=
          inductionHypothesis applied beyond
        exact ⟨directive :: before, emitting, after, prior, rfl,
          by rw [applyAll, first]; exact reached, place, emits⟩

/-- A directive that emits appends its instruction behind those of the directives before it. -/
theorem exists_emitted_of_reached {before after : List Directive} {prior : Assembly}
    (reached : assembly.applyAll before = .ok prior)
    (applied : assembly.applyAll (before ++ directive :: after) = .ok final)
    (emission : directive.isEmission = true) :
    ∃ symbolic rest, directive.Emits symbolic ∧
      final.emitted.toList = prior.emitted.toList ++ symbolic :: rest := by
  have others := applyAll_of_reached reached applied
  rw [applyAll] at others
  split at others
  · contradiction
  · rename_i next first
    obtain ⟨symbolic, emits, _, rfl⟩ := exists_emits_of_apply first emission
    obtain ⟨rest, whole, _⟩ := exists_emitted_of_applyAll others
    refine ⟨symbolic, rest, emits, ?_⟩
    rw [whole, append, Array.toList_push, List.append_assoc, List.singleton_append]

/-- The instructions of an assembly are those that its directives append. -/
theorem mem_emitted_iff (applied : empty.applyAll directives = .ok final) :
    symbolic ∈ final.emitted.toList ↔ ∃ directive ∈ directives, directive.Emits symbolic := by
  constructor
  · intro member
    obtain ⟨front, rest, split⟩ := List.append_of_mem member
    obtain ⟨before, directive, after, _, rfl, _, _, emits⟩ :=
      exists_emits_of_emitted applied (Nat.zero_le _) split
    exact ⟨directive, by simp, emits⟩
  · rintro ⟨directive, member, emits⟩
    obtain ⟨before, after, rfl⟩ := List.append_of_mem member
    obtain ⟨prior, reached, _⟩ := exists_of_applyAll_append applied
    obtain ⟨other, rest, again, whole⟩ :=
      exists_emitted_of_reached reached applied (isEmission_of_emits emits)
    obtain rfl := eq_of_emits emits again
    rw [whole]
    simp

/-- The last instruction was appended by a directive behind which none emits. -/
theorem exists_emits_of_getLast? (applied : empty.applyAll directives = .ok final)
    (last : final.emitted.toList.getLast? = some symbolic) :
    ∃ before directive after, directives = before ++ directive :: after ∧
      (∀ other ∈ after, other.isEmission = false) ∧ directive.Emits symbolic := by
  obtain ⟨front, split⟩ := List.getLast?_eq_some_iff.mp last
  obtain ⟨before, directive, after, prior, rfl, reached, rfl, emits⟩ :=
    exists_emits_of_emitted applied (Nat.zero_le _) split
  refine ⟨before, directive, after, rfl, ?_, emits⟩
  have whole := length_emitted applied
  rw [split, List.countP_append, List.countP_cons_of_pos (isEmission_of_emits emits),
    List.length_append, List.length_singleton, length_emitted reached] at whole
  have none : after.countP Directive.isEmission = 0 := by omega
  simpa [List.countP_eq_zero] using none

/-- A directive behind which none emits appends the last instruction. -/
theorem getLast?_emitted {before after : List Directive}
    (applied : empty.applyAll (before ++ directive :: after) = .ok final)
    (silent : ∀ other ∈ after, other.isEmission = false) (emits : directive.Emits symbolic) :
    final.emitted.toList.getLast? = some symbolic := by
  obtain ⟨prior, reached, _⟩ := exists_of_applyAll_append applied
  obtain ⟨other, rest, again, whole⟩ :=
    exists_emitted_of_reached reached applied (isEmission_of_emits emits)
  obtain rfl := eq_of_emits emits again
  have lengths := length_emitted applied
  have none : after.countP Directive.isEmission = 0 :=
    List.countP_eq_zero.mpr fun other member => by simp [silent other member]
  rw [whole, List.countP_append, List.countP_cons_of_pos (isEmission_of_emits emits), none,
    List.length_append, List.length_cons, length_emitted reached] at lengths
  have nothing : rest = [] := List.eq_nil_of_length_eq_zero (by omega)
  rw [whole, nothing, List.getLast?_concat]

end Emission

section Labels

/-- A label that one of the directives binds has an offset. -/
theorem exists_boundAt (applied : assembly.applyAll directives = .ok final)
    (member : .bind label ∈ directives) : ∃ pc, assembly.BoundAt directives label pc := by
  obtain ⟨before, after, rfl⟩ := List.append_of_mem member
  obtain ⟨prior, reached, _⟩ := exists_of_applyAll_append applied
  exact ⟨prior.pc, before, after, prior, rfl, reached, rfl⟩

/-- A label has no place exactly if no directive binds it. -/
theorem place_eq_none_iff (applied : empty.applyAll directives = .ok final) :
    final.place label = none ↔ .bind label ∉ directives := by
  constructor
  · intro unplaced member
    obtain ⟨pc, bound⟩ := exists_boundAt applied member
    rw [(place_of_boundAt applied bound).2] at unplaced
    contradiction
  · intro absent
    cases placed : final.place label with
    | none => rfl
    | some target =>
      obtain ⟨before, after, _, rfl, _⟩ := boundAt_of_place applied rfl placed
      exact absurd (by simp) absent

/-- An instruction stands where a label is bound exactly if one is appended behind it. -/
theorem standsAt_iff_not_boundAtEnd (applied : empty.applyAll directives = .ok final) {pc : Nat}
    (bound : empty.BoundAt directives label pc) :
    StandsAt final.emitted.toList pc ↔ ¬ BoundAtEnd directives label := by
  constructor
  · rintro stands ⟨before, after, rfl, silent⟩
    obtain ⟨prior, reached, rest⟩ := exists_of_applyAll_append applied
    obtain rfl := BoundAt.unique applied bound ⟨before, after, prior, rfl, reached, rfl⟩
    obtain ⟨symbolics, whole, _⟩ := exists_emitted_of_applyAll rest
    have lengths := length_emitted rest
    have none : (.bind label :: after).countP Directive.isEmission = 0 :=
      List.countP_eq_zero.mpr fun other member => by
        rcases List.mem_cons.mp member with rfl | later
        · exact Bool.false_ne_true
        · simp [silent other later]
    rw [none, whole, List.length_append] at lengths
    have nothing : symbolics = [] := List.eq_nil_of_length_eq_zero (by omega)
    have within := stands.lt_totalLength
    rw [whole, nothing, List.append_nil, ← prior.pc_eq] at within
    exact Nat.lt_irrefl _ within
  · intro inside
    obtain ⟨before, after, prior, rfl, reached, rfl⟩ := bound
    have rest := applyAll_of_reached reached applied
    obtain ⟨symbolics, whole, _⟩ := exists_emitted_of_applyAll rest
    cases symbolics with
    | nil =>
      have lengths := length_emitted rest
      rw [whole, List.append_nil, List.countP_cons_of_neg Bool.false_ne_true] at lengths
      have none : after.countP Directive.isEmission = 0 := by omega
      exact absurd ⟨before, after, rfl, by simpa [List.countP_eq_zero] using none⟩ inside
    | cons symbolic others =>
      exact ⟨prior.emitted.toList, symbolic, others, whole, prior.pc_eq⟩

/-- A branch among the instructions was appended by a directive at its offset. -/
theorem branchesAt_of_emitted (applied : empty.applyAll directives = .ok final)
    {front rest : List (Instruction Label)} {symbolic : Instruction Label}
    (split : final.emitted.toList = front ++ symbolic :: rest)
    (jumps : symbolic.target? = some label) :
    empty.BranchesAt directives label (totalLength front) := by
  obtain ⟨before, directive, after, prior, rfl, reached, rfl, emits⟩ :=
    exists_emits_of_emitted applied (Nat.zero_le _) split
  obtain rfl := eq_emit_of_target? emits jumps
  exact ⟨before, symbolic, after, prior, rfl, reached, prior.pc_eq, jumps⟩

/-- A branch that a directive appends is among the instructions at its offset. -/
theorem exists_emitted_of_branchesAt (applied : empty.applyAll directives = .ok final) {pc : Nat}
    (branches : empty.BranchesAt directives label pc) :
    ∃ front symbolic rest, final.emitted.toList = front ++ symbolic :: rest ∧
      pc = totalLength front ∧ symbolic.target? = some label := by
  obtain ⟨before, instruction, after, prior, rfl, reached, rfl, jumps⟩ := branches
  obtain ⟨symbolic, rest, emits, whole⟩ := exists_emitted_of_reached reached applied rfl
  obtain rfl := eq_of_emits (.instruction instruction) emits
  exact ⟨_, instruction, rest, whole, prior.pc_eq, jumps⟩

end Labels

section Resolving

variable {place : Label → Option UInt32} {pc : Nat}

/-- Resolving an instruction fails only for want of a place for its label. -/
theorem resolve_eq_none_iff {symbolic : Instruction Label} :
    symbolic.resolve place = none ↔
      ∃ label, symbolic.target? = some label ∧ place label = none := by
  cases symbolic <;> simp [Instruction.resolve, target?]

/-- Resolving fails at the first branch whose label has no place. -/
theorem resolve_eq_error_iff {symbolics : List (Instruction Label)} {error : CodeError} :
    resolve place pc symbolics = .error error ↔
      ∃ before symbolic after, symbolics = before ++ symbolic :: after ∧
        error = .instruction (pc + totalLength before) .unboundLabel ∧
        (∃ label, symbolic.target? = some label ∧ place label = none) ∧
        ∀ other ∈ before, ∀ label, other.target? = some label → place label ≠ none := by
  induction symbolics generalizing pc with
  | nil => simp [resolve]
  | cons head later inductionHypothesis =>
    rw [resolve]
    cases found : head.resolve place with
    | none =>
      simp only [Except.error.injEq]
      constructor
      · rintro rfl
        exact ⟨[], head, later, rfl, rfl, resolve_eq_none_iff.mp found, by simp⟩
      · rintro ⟨before, symbolic, after, split, rfl, _, earlier⟩
        cases before with
        | nil => rfl
        | cons first before =>
          obtain ⟨rfl, _⟩ := List.cons.inj split
          obtain ⟨label, jumps, unplaced⟩ := resolve_eq_none_iff.mp found
          exact absurd unplaced (earlier head List.mem_cons_self label jumps)
    | some instruction =>
      have placed : ∀ label, head.target? = some label → place label ≠ none := by
        intro label jumps unplaced
        rw [resolve_eq_none_iff.mpr ⟨label, jumps, unplaced⟩] at found
        contradiction
      constructor
      · intro fails
        simp only at fails
        split at fails
        · rename_i reason rest
          obtain rfl := Except.error.inj fails
          obtain ⟨before, symbolic, after, rfl, rfl, unbound, earlier⟩ :=
            inductionHypothesis.mp rest
          refine ⟨head :: before, symbolic, after, rfl, ?_, unbound, ?_⟩
          · rw [totalLength_cons, Nat.add_assoc]
          · intro other member
            rcases List.mem_cons.mp member with rfl | member
            · exact placed
            · exact earlier other member
        · contradiction
      · rintro ⟨before, symbolic, after, split, rfl, unbound, earlier⟩
        cases before with
        | nil =>
          obtain ⟨rfl, _⟩ := List.cons.inj split
          obtain ⟨label, jumps, unplaced⟩ := unbound
          exact absurd unplaced (placed label jumps)
        | cons first before =>
          obtain ⟨rfl, rfl⟩ := List.cons.inj split
          have rest := inductionHypothesis.mpr ⟨before, symbolic, after, rfl,
            by rw [totalLength_cons, Nat.add_assoc], unbound,
            fun other member => earlier other (List.mem_cons_of_mem _ member)⟩
          simp only [rest]

end Resolving

/-- An instruction that begins before another one is among those in front of it. -/
theorem mem_front_of_totalLength_lt {front rest otherFront otherRest : List (Instruction Label)}
    {symbolic branch : Instruction Label}
    (same : front ++ symbolic :: rest = otherFront ++ branch :: otherRest)
    (before : totalLength otherFront < totalLength front) : branch ∈ front := by
  rcases List.append_eq_append_iff.mp same with ⟨middle, rfl, _⟩ | ⟨middle, rfl, tails⟩
  · rw [totalLength_append] at before
    omega
  · cases middle with
    | nil =>
      rw [List.append_nil] at before
      exact absurd before (Nat.lt_irrefl _)
    | cons first middle =>
      obtain ⟨rfl, _⟩ := List.cons.inj tails
      simp

/-- Directives that complete a program append instructions whose operands are within it. -/
theorem Completes.operandDefect?_eq_none (completes : Completes directives captures counters)
    {directive : Directive} {symbolic : Instruction Label} (member : directive ∈ directives)
    (emits : directive.Emits symbolic) : symbolic.operandDefect? captures counters = none := by
  rw [operandDefect?_eq_none_iff_fits]
  cases emits with
  | narrow | wide | table => exact ⟨rfl, rfl, rfl⟩
  | instruction =>
    refine ⟨?_, ?_, ?_⟩
    · cases symbolic with
      | startCapture group => exact decide_eq_true (completes.groups group (.inl member))
      | endCapture group => exact decide_eq_true (completes.groups group (.inr member))
      | clearCaptures first stop =>
        obtain ⟨ordered, inGroups⟩ := completes.cleared first stop member
        exact (Bool.and_eq_true _ _).mpr
          ⟨decide_eq_true (UInt32.le_iff_toNat_le.mpr ordered), decide_eq_true inGroups⟩
      | _ => rfl
    · rw [slotFits]
      split
      · rfl
      · rename_i slot uses
        exact decide_eq_true (completes.slots symbolic slot member uses)
    · cases symbolic with
      | counterNext slot max label => exact decide_eq_true (completes.repeats slot max label member)
      | _ => rfl

/-- What a sequence of encoded instructions can be refused for: the operands of an instruction, the
end, or a target at which no instruction stands. -/
theorem reasons_of_refused {instructions : List (Instruction UInt32)} {pc : Nat} {defect : Defect}
    (writable : ∀ instruction ∈ instructions, instruction.Encodable)
    (refused : Refused (instructions.flatMap encode) captures counters (.instruction pc defect)) :
    (∃ instruction, Misplaced captures counters instruction defect) ∨ defect = .fallsOffEnd ∨
      ∃ before instruction after target, instructions = before ++ instruction :: after ∧
        pc = totalLength before ∧ instruction.target? = some target ∧
        ¬ IsPlace instructions target.toNat ∧ defect = .invalidTarget target.toNat := by
  generalize bytes : instructions.flatMap encode = stream at refused
  cases refused with
  | malformed _ sound bytes_eq found =>
    exact absurd found (Disassembly.not_malformed_behind writable
      (fun instruction member => (sound instruction member).encodable) (bytes.trans bytes_eq))
  | misplaced _ _ _ _ found => exact .inl ⟨_, found⟩
  | fallsOffEnd => exact .inr (.inl rfl)
  | invalidTarget _ sound bytes_eq _ _ jumps absent =>
    obtain rfl := Disassembly.flatMap_encode_injective writable
      (fun instruction member => (sound instruction member).encodable) (bytes.trans bytes_eq)
    exact .inr (.inr ⟨_, _, _, _, rfl, rfl, jumps, absent, rfl⟩)

/-- Finishing fails because a label has no place, or because the resolved instructions are refused
as a program. -/
theorem fails_of_finish {error : CodeError} (applied : empty.applyAll directives = .ok assembly)
    (fails : assembly.finish captures counters = .error error) :
    resolve assembly.place 0 assembly.emitted.toList = .error error ∨
      ∃ instructions, resolve assembly.place 0 assembly.emitted.toList = .ok instructions ∧
        List.Forall₂ (Resolved assembly.Means) assembly.emitted.toList instructions ∧
        (∀ instruction ∈ instructions, instruction.Encodable) ∧
        Refused (instructions.flatMap encode) captures counters error := by
  rw [finish] at fails
  split at fails
  · rename_i reason unresolved
    obtain rfl := Except.error.inj fails
    exact .inl unresolved
  · rename_i instructions resolves
    have resolved : List.Forall₂ (Resolved assembly.Means) assembly.emitted.toList
        instructions := forall₂_resolved resolves
    split at fails
    · rename_i reason refused
      obtain rfl := Except.error.inj fails
      exact .inr ⟨instructions, resolves, resolved, encodable_of_applyAll applied resolved,
        (Program.ofBytes_exact _ _ _).2.2 _ |>.mp refused⟩
    · contradiction

/-- Finishing reports a label without a place exactly at the first branch to one. -/
theorem finish_eq_unboundLabel_iff (applied : empty.applyAll directives = .ok assembly) {pc : Nat} :
    assembly.finish captures counters = .error (.instruction pc .unboundLabel) ↔
      FirstUnbound directives pc := by
  have places : ∀ label, assembly.place label = none ↔ .bind label ∉ directives :=
    fun label => place_eq_none_iff applied
  constructor
  · intro fails
    rcases fails_of_finish applied fails with unresolved | ⟨instructions, _, _, writable, refused⟩
    · obtain ⟨front, symbolic, rest, split, same, ⟨label, jumps, unplaced⟩, earlier⟩ :=
        resolve_eq_error_iff.mp unresolved
      obtain ⟨rfl, _⟩ := CodeError.instruction.inj same
      rw [Nat.zero_add]
      refine ⟨⟨label, branchesAt_of_emitted applied split jumps, (places label).mp unplaced⟩, ?_⟩
      intro other place branches before
      obtain ⟨otherFront, branch, otherRest, again, rfl, goes⟩ :=
        exists_emitted_of_branchesAt applied branches
      by_contra absent
      refine earlier branch ?_ other goes ((places other).mpr absent)
      exact mem_front_of_totalLength_lt (split.symm.trans again) before
    · rcases reasons_of_refused writable refused with ⟨_, misplaced⟩ | reason |
        ⟨_, _, _, _, _, _, _, _, reason⟩
      · cases misplaced
      · contradiction
      · contradiction
  · rintro ⟨⟨label, branches, absent⟩, earlier⟩
    obtain ⟨front, symbolic, rest, split, rfl, jumps⟩ :=
      exists_emitted_of_branchesAt applied branches
    have unresolved := resolve_eq_error_iff.mpr ⟨front, symbolic, rest, split,
      (rfl : CodeError.instruction (0 + totalLength front) _ = _),
      ⟨label, jumps, (places label).mpr absent⟩, ?_⟩
    · rw [finish, unresolved, Nat.zero_add]
    · intro other member otherLabel goes unplaced
      obtain ⟨first, middle, rfl⟩ := List.append_of_mem member
      refine (places otherLabel).mp unplaced (earlier otherLabel (totalLength first) ?_ ?_)
      · rw [List.append_assoc] at split
        exact branchesAt_of_emitted applied split goes
      · have positive := other.length_pos
        rw [totalLength_append, totalLength_cons]
        omega

/-- A resolved instruction whose target is no place is a branch to a label that was bound behind
the last instruction. -/
theorem boundAtEnd_of_not_isPlace (applied : empty.applyAll directives = .ok assembly)
    {before after : List (Instruction UInt32)} {instruction : Instruction UInt32} {target : UInt32}
    (resolved : List.Forall₂ (Resolved assembly.Means) assembly.emitted.toList
      (before ++ instruction :: after))
    (jumps : instruction.target? = some target)
    (absent : ¬ IsPlace (before ++ instruction :: after) target.toNat) :
    ∃ label, empty.BranchesAt directives label (totalLength before) ∧
      BoundAtEnd directives label := by
  have backwards : List.Forall₂ (flip (Resolved assembly.Means)) (before ++ instruction :: after)
      assembly.emitted.toList := resolved.flip
  obtain ⟨front, symbolic, rest, split, fronts, same⟩ := exists_split_of_forall₂ backwards
  obtain ⟨label, goes, means⟩ := same.exists_symbolic_target jumps
  have branches := branchesAt_of_emitted applied split goes
  rw [← Resolved.totalLength_eq fronts.flip] at branches
  refine ⟨label, branches, ?_⟩
  by_contra inside
  refine absent (Instruction.standsAt_iff.mp ((Resolved.standsAt_iff resolved).mpr ?_))
  exact (standsAt_iff_not_boundAtEnd applied (boundAt_of_place applied rfl means)).mpr inside

/-- Directives whose assembly can be finished complete a program. -/
theorem Finishable.completes (applied : empty.applyAll directives = .ok assembly)
    (finishable : assembly.Finishable captures counters) :
    Completes directives captures counters := by
  have emitted : ∀ instruction, .emit instruction ∈ directives →
      instruction ∈ assembly.emitted.toList :=
    fun instruction member => (mem_emitted_iff applied).mpr ⟨_, member, .instruction instruction⟩
  have fit : ∀ instruction, .emit instruction ∈ directives → _ := fun instruction member =>
    operandDefect?_eq_none_iff_fits.mp (finishable.operands instruction (emitted _ member))
  constructor
  case captured => exact finishable.captured
  case emits =>
    obtain ⟨symbolic, member⟩ := List.exists_mem_of_ne_nil _ finishable.nonempty
    obtain ⟨directive, present, emits⟩ := (mem_emitted_iff applied).mp member
    exact ⟨directive, present, isEmission_of_emits emits⟩
  case groups =>
    rintro group (member | member)
    · exact of_decide_eq_true (fit _ member).1
    · exact of_decide_eq_true (fit _ member).1
  case cleared =>
    intro first stop member
    obtain ⟨ordered, inGroups⟩ := (Bool.and_eq_true _ _).mp (fit _ member).1
    exact ⟨UInt32.le_iff_toNat_le.mp (of_decide_eq_true ordered), of_decide_eq_true inGroups⟩
  case slots =>
    intro instruction slot member uses
    have slotFit := (fit _ member).2.1
    rw [slotFits, uses] at slotFit
    exact of_decide_eq_true slotFit
  case repeats =>
    intro slot max label member
    exact of_decide_eq_true (fit _ member).2.2
  case ending =>
    rintro before last after symbolic rfl silent emits
    exact finishable.ending symbolic (getLast?_emitted applied silent emits)
  case bound =>
    intro instruction label member jumps
    obtain ⟨target, means, stands⟩ := finishable.targets instruction (emitted _ member) label jumps
    have bound := boundAt_of_place applied rfl means
    refine ⟨?_, (standsAt_iff_not_boundAtEnd applied bound).mp stands⟩
    obtain ⟨before, after, _, rfl, _⟩ := bound
    simp

/-- The assembly of directives that complete a program can be finished. -/
theorem Completes.finishable (applied : empty.applyAll directives = .ok assembly)
    (completes : Completes directives captures counters) :
    assembly.Finishable captures counters := by
  constructor
  case captured => exact completes.captured
  case nonempty =>
    obtain ⟨directive, member, emission⟩ := completes.emits
    obtain ⟨before, after, rfl⟩ := List.append_of_mem member
    obtain ⟨prior, reached, _⟩ := exists_of_applyAll_append applied
    obtain ⟨symbolic, rest, _, whole⟩ := exists_emitted_of_reached reached applied emission
    simp [whole]
  case operands =>
    intro symbolic member
    obtain ⟨directive, present, emits⟩ := (mem_emitted_iff applied).mp member
    exact completes.operandDefect?_eq_none present emits
  case targets =>
    intro symbolic member label jumps
    obtain ⟨directive, present, emits⟩ := (mem_emitted_iff applied).mp member
    obtain rfl := eq_emit_of_target? emits jumps
    obtain ⟨isBound, inside⟩ := completes.bound symbolic label present jumps
    obtain ⟨pc, bound⟩ := exists_boundAt applied isBound
    obtain ⟨fits, placed⟩ := place_of_boundAt applied bound
    refine ⟨_, placed, ?_⟩
    rw [LittleEndian.toNat_ofNat_of_lt_wordLimit fits]
    exact (standsAt_iff_not_boundAtEnd applied bound).mpr inside
  case ending =>
    intro symbolic last
    obtain ⟨before, directive, after, rfl, silent, emits⟩ := exists_emits_of_getLast? applied last
    exact completes.ending before directive after symbolic rfl silent emits

/-- Finishing reports a label that is never bound exactly at the first branch to one, whatever else
is wrong. Otherwise it never refuses an encoding, and a target only where the label of the branch
was bound behind the last instruction. It succeeds exactly if the directives complete a program. -/
theorem reports_of_finish (directives : List Directive) (captures counters : Nat)
    (assembly : Assembly) (applied : empty.applyAll directives = .ok assembly) :
    (∀ pc, assembly.finish captures counters = .error (.instruction pc .unboundLabel) ↔
      FirstUnbound directives pc) ∧
    (∀ label pc, empty.BranchesAt directives label pc → .bind label ∉ directives →
      ∃ first, first ≤ pc ∧
        assembly.finish captures counters = .error (.instruction first .unboundLabel)) ∧
    (∀ pc defect, assembly.finish captures counters = .error (.instruction pc defect) →
      (∀ tag, defect ≠ .unknownOpcode tag) ∧ defect ≠ .truncated ∧ defect ≠ .invalidRangeTable ∧
        defect ≠ .emptyLiteral ∧
        ∀ target, defect = .invalidTarget target →
          ∃ label, empty.BranchesAt directives label pc ∧ BoundAtEnd directives label) ∧
    ((∃ program, assembly.finish captures counters = .ok program) ↔
      Completes directives captures counters) := by
  refine ⟨fun pc => finish_eq_unboundLabel_iff applied, ?_, ?_,
    (finish_iff applied).trans ⟨Finishable.completes applied, Completes.finishable applied⟩⟩
  · intro label pc branches absent
    -- The offsets of branches to labels that are not bound have a least one.
    have unbound : ∃ place, ∃ label, empty.BranchesAt directives label place ∧
        .bind label ∉ directives := ⟨pc, label, branches, absent⟩
    classical
    refine ⟨Nat.find unbound, Nat.find_min' unbound ⟨label, branches, absent⟩,
      (finish_eq_unboundLabel_iff applied).mpr ⟨Nat.find_spec unbound, ?_⟩⟩
    intro other place goes earlier
    by_contra missing
    exact Nat.find_min unbound earlier ⟨other, goes, missing⟩
  · intro pc defect fails
    rcases fails_of_finish applied fails with unresolved |
      ⟨instructions, _, resolved, writable, refused⟩
    · obtain ⟨_, _, _, _, same, _⟩ := resolve_eq_error_iff.mp unresolved
      obtain ⟨_, rfl⟩ := CodeError.instruction.inj same
      simp
    · rcases reasons_of_refused writable refused with ⟨_, misplaced⟩ | rfl |
        ⟨before, instruction, after, target, rfl, rfl, jumps, absent, rfl⟩
      · cases misplaced <;> simp
      · simp
      · refine ⟨nofun, nofun, nofun, nofun, ?_⟩
        intro _ _
        exact boundAtEnd_of_not_isPlace applied resolved jumps absent

end Assembly

end RegexMachine
