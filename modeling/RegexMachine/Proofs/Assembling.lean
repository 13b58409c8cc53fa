import Mathlib.Algebra.Ring.Nat
import Mathlib.Data.List.Forall2
import RegexMachine.Assembly
import RegexMachine.Proofs.ControlFlow

/-!
# Disassembling what was assembled

A finished program disassembles into one instruction for each directive that emits one, in order,
at the offset that the assembly had reached and with the operands of the directive
(`Assembly.Emitted`). The target of every branch is the offset at which its label was bound,
before or after the branch (`Assembly.boundAt_of_place`), and a label is bound at one offset only
(`Assembly.BoundAt.unique`). `Assembly.disassembles_of_finish` puts these together.
-/

namespace RegexMachine

open LittleEndian

namespace Instruction

/-- The same instruction with the same operands, over targets that are related to the symbolic
ones. -/
inductive Resolved {Target Other : Type} (meant : Target → Other → Prop) :
    Instruction Target → Instruction Other → Prop where
  | storeSp (slot : UInt32) : Resolved meant (.storeSp slot) (.storeSp slot)
  | storePosition (slot : UInt32) : Resolved meant (.storePosition slot) (.storePosition slot)
  | positionTest (slot : UInt32) : Resolved meant (.positionTest slot) (.positionTest slot)
  | assertionSuccess (slot : UInt32) {target : Target} {other : Other}
      (related : meant target other) :
      Resolved meant (.assertionSuccess slot target) (.assertionSuccess slot other)
  | assertionFailure (slot : UInt32) :
      Resolved meant (.assertionFailure slot) (.assertionFailure slot)
  | assertion (anchor : Anchor) : Resolved meant (.assertion anchor) (.assertion anchor)
  | startCapture (group : UInt32) : Resolved meant (.startCapture group) (.startCapture group)
  | endCapture (group : UInt32) : Resolved meant (.endCapture group) (.endCapture group)
  | clearCaptures (first stop : UInt32) :
      Resolved meant (.clearCaptures first stop) (.clearCaptures first stop)
  | counterZero (slot : UInt32) : Resolved meant (.counterZero slot) (.counterZero slot)
  | counterNext (slot max : UInt32) {target : Target} {other : Other}
      (related : meant target other) :
      Resolved meant (.counterNext slot max target) (.counterNext slot max other)
  | pushBacktrack {target : Target} {other : Other} (related : meant target other) :
      Resolved meant (.pushBacktrack target) (.pushBacktrack other)
  | backReference (group : UInt16) (ignoreCase : Bool) :
      Resolved meant (.backReference group ignoreCase) (.backReference group ignoreCase)
  | checkByte (unit : UInt8) : Resolved meant (.checkByte unit) (.checkByte unit)
  | checkUnit (unit : UInt16) : Resolved meant (.checkUnit unit) (.checkUnit unit)
  | checkAny (units : List UInt16) : Resolved meant (.checkAny units) (.checkAny units)
  | checkRange (ranges : List UnitRange) (count : UInt32) (inverted : Bool) :
      Resolved meant (.checkRange ranges count inverted) (.checkRange ranges count inverted)
  | checkLiteral (units : List UInt16) :
      Resolved meant (.checkLiteral units) (.checkLiteral units)
  | jump {target : Target} {other : Other} (related : meant target other) :
      Resolved meant (.jump target) (.jump other)
  | failure : Resolved meant .failure .failure
  | success : Resolved meant .success .success

/-- Resolving targets keeps an instruction and its operands. -/
theorem resolved_of_resolve {Target Other : Type} {place : Target → Option Other}
    {symbolic : Instruction Target} {instruction : Instruction Other}
    (found : symbolic.resolve place = some instruction) :
    Resolved (fun target other => place target = some other) symbolic instruction := by
  cases symbolic <;> simp only [resolve, Option.map_eq_some_iff, Option.some.injEq] at found
  case assertionSuccess | counterNext | pushBacktrack | jump =>
    obtain ⟨target, related, rfl⟩ := found
    constructor
    exact related
  all_goals
    subst found
    constructor

namespace Resolved

variable {Target Other : Type} {meant : Target → Other → Prop} {symbolic : Instruction Target}
  {instruction : Instruction Other}

/-- Targets may be related in a weaker way. -/
theorem mono {weaker : Target → Other → Prop}
    (implies : ∀ target other, meant target other → weaker target other)
    (resolved : Resolved meant symbolic instruction) :
    Resolved weaker symbolic instruction := by
  cases resolved
  case assertionSuccess | counterNext | pushBacktrack | jump =>
    constructor
    apply implies
    assumption
  all_goals constructor

/-- An instruction is resolved by itself if its target is related to itself. -/
theorem refl {meant : Target → Target → Prop} (instruction : Instruction Target)
    (related : ∀ target, instruction.target? = some target → meant target target) :
    Resolved meant instruction instruction := by
  cases instruction
  case assertionSuccess | counterNext | pushBacktrack | jump =>
    constructor
    exact related _ rfl
  all_goals constructor

/-- A resolved instruction takes as many bytes as the symbolic one. -/
theorem length_eq (resolved : Resolved meant symbolic instruction) :
    instruction.length = symbolic.length := by
  cases resolved <;> rfl

/-- An instruction that can be appended can be written. -/
theorem encodable {meant : Target → UInt32 → Prop} {instruction : Instruction UInt32}
    (resolved : Resolved meant symbolic instruction) (proper : symbolic.misuse? = none) :
    instruction.Encodable := by
  cases resolved with
  | checkAny units =>
    simp only [misuse?] at proper
    split at proper
    · rename_i fits
      simpa [Encodable] using fits
    · contradiction
  | checkRange ranges count inverted =>
    simp only [misuse?] at proper
    split at proper
    · rename_i fits
      exact fits
    · contradiction
  | checkLiteral units =>
    simp only [misuse?] at proper
    split at proper
    · contradiction
    · rename_i some
      split at proper
      · rename_i fits
        refine ⟨?_, fits⟩
        cases units with
        | nil => contradiction
        | cons => exact Nat.succ_pos _
      · contradiction
  | _ => trivial

end Resolved

end Instruction

namespace Directive

/-- Whether a directive appends an instruction. -/
def isEmission : Directive → Bool
  | .emit _ | .emitUnit _ | .emitRanges .. => true
  | _ => false

/-- The instruction that a directive appends. A unit is written in one byte if it fits, and a
range table carries the number of units in its ranges. -/
inductive Emits : Directive → Instruction Label → Prop where
  | instruction (instruction : Instruction Label) : Emits (.emit instruction) instruction
  | narrow {unit : UInt16} (fits : unit.toNat < 256) :
      Emits (.emitUnit unit) (.checkByte (UInt8.ofNat unit.toNat))
  | wide {unit : UInt16} (tooLarge : 256 ≤ unit.toNat) : Emits (.emitUnit unit) (.checkUnit unit)
  | table {ranges : List UnitRange} {count : UInt32} (inverted : Bool)
      (counted : count.toNat =
        (ranges.map fun range => range.last.toNat - range.first.toNat + 1).sum) :
      Emits (.emitRanges ranges inverted) (.checkRange ranges count inverted)

end Directive

/-- The number of units in ranges is a sum over the ranges. -/
theorem UnitRange.totalCount_eq_sum (ranges : List UnitRange) :
    totalCount ranges =
      (ranges.map fun range => range.last.toNat - range.first.toNat + 1).sum := by
  induction ranges with
  | nil => rfl
  | cons range later inductionHypothesis =>
    rw [totalCount, inductionHypothesis, List.map_cons, List.sum_cons]

/-- A program that is accepted keeps its bytes. -/
theorem Program.bytes_of_ofBytes {bytes : List UInt8} {captures counters : Nat}
    {program : Program} (accepted : ofBytes bytes captures counters = .ok program) :
    program.bytes = bytes := by
  rw [ofBytes] at accepted
  split at accepted
  · contradiction
  · obtain rfl := Except.ok.inj accepted
    rfl

namespace Assembly

variable {assembly next final : Assembly} {directive : Directive} {directives : List Directive}

/-- The directives that append an instruction, in order, each with the offset that the assembly
has reached before it. -/
def emissions (assembly : Assembly) : List Directive → List (Nat × Directive)
  | [] => []
  | directive :: later =>
    match assembly.apply directive with
    | .error _ => []
    | .ok next =>
      if directive.isEmission then (assembly.pc, directive) :: next.emissions later
      else next.emissions later

/-- Instructions that directives appended, one for each, from an offset on. -/
inductive Emitted : Nat → List (Nat × Directive) → List (Instruction Label) → Prop where
  | nil (pc : Nat) : Emitted pc [] []
  | cons {pc : Nat} {directive : Directive} {symbolic : Instruction Label}
      {calls : List (Nat × Directive)} {later : List (Instruction Label)}
      (emits : directive.Emits symbolic) (proper : symbolic.misuse? = none)
      (rest : Emitted (pc + symbolic.length) calls later) :
      Emitted pc ((pc, directive) :: calls) (symbolic :: later)

/-- Emitting an instruction appends it, if it can be written. -/
theorem eq_append_of_emit {symbolic : Instruction Label}
    (emits : assembly.emit symbolic = .ok next) :
    symbolic.misuse? = none ∧ next = assembly.append symbolic := by
  rw [emit] at emits
  split at emits
  · contradiction
  · rename_i proper
    refine ⟨proper, ?_⟩
    split at emits
    · exact (Except.ok.inj emits).symm
    · split at emits
      · exact (Except.ok.inj emits).symm
      · contradiction

/-- An instruction is appended if it can be written and its label exists. -/
theorem emit_eq_ok {symbolic : Instruction Label} (proper : symbolic.misuse? = none)
    (known : ∀ label, symbolic.target? = some label → label.index < assembly.labels.size) :
    assembly.emit symbolic = .ok (assembly.append symbolic) := by
  rw [emit, proper]
  cases jumps : symbolic.target? with
  | none => rfl
  | some label => exact if_pos (known label jumps)

/-- An instruction is appended only if its label was created. -/
theorem known_of_emit {symbolic : Instruction Label} (emits : assembly.emit symbolic = .ok next)
    {label : Label} (jumps : symbolic.target? = some label) :
    label.index < assembly.labels.size := by
  rw [emit, (eq_append_of_emit emits).1, jumps] at emits
  by_contra unknown
  simp only [if_neg unknown] at emits
  contradiction

/-- The shortest check of a unit. -/
theorem emits_ofUnit (unit : UInt16) : (Directive.emitUnit unit).Emits (.ofUnit unit) := by
  rw [Instruction.ofUnit]
  split
  · rename_i fits
    exact .narrow (UInt16.lt_iff_toNat_lt.mp fits)
  · rename_i tooLarge
    exact .wide (Nat.le_of_not_lt fun fits => tooLarge (UInt16.lt_iff_toNat_lt.mpr fits))

/-- A directive that emits does so with the instruction that it means. -/
theorem exists_emit_of_apply (applied : assembly.apply directive = .ok next)
    (emission : directive.isEmission = true) :
    ∃ symbolic, directive.Emits symbolic ∧ assembly.emit symbolic = .ok next := by
  cases directive with
  | emit instruction => exact ⟨instruction, .instruction instruction, applied⟩
  | emitUnit unit => exact ⟨_, emits_ofUnit unit, applied⟩
  | emitRanges ranges inverted =>
    rw [apply] at applied
    split at applied
    · contradiction
    · rename_i count counted
      refine ⟨_, .table inverted ?_, applied⟩
      rw [UnitRange.tableCount] at counted
      split at counted
      · contradiction
      · simp only at counted
        split at counted
        · rename_i fits
          obtain rfl := Except.ok.inj counted
          rw [toNat_ofNat_of_lt_wordLimit fits, UnitRange.totalCount_eq_sum]
        · contradiction
  | _ => contradiction

/-- A directive that emits appends the instruction that it means. -/
theorem exists_emits_of_apply (applied : assembly.apply directive = .ok next)
    (emission : directive.isEmission = true) :
    ∃ symbolic, directive.Emits symbolic ∧ symbolic.misuse? = none ∧
      next = assembly.append symbolic := by
  obtain ⟨symbolic, emits, appended⟩ := exists_emit_of_apply applied emission
  exact ⟨symbolic, emits, eq_append_of_emit appended⟩

/-- A directive that does not emit appends nothing. -/
theorem emitted_of_apply (applied : assembly.apply directive = .ok next)
    (silent : directive.isEmission = false) :
    next.emitted = assembly.emitted ∧ next.pc = assembly.pc := by
  cases directive with
  | emit | emitUnit | emitRanges => contradiction
  | bind label =>
    rw [apply, bind] at applied
    split at applied
    · contradiction
    · split at applied
      · contradiction
      · contradiction
      · obtain rfl := Except.ok.inj applied
        exact ⟨rfl, rfl⟩
  | newLabel | ignoreCase | filter | deriveFilter =>
    obtain rfl := Except.ok.inj applied
    exact ⟨rfl, rfl⟩

/-- Directives append the instructions that they mean, in order and one after the other. -/
theorem exists_emitted_of_applyAll (applied : assembly.applyAll directives = .ok final) :
    ∃ symbolics, final.emitted.toList = assembly.emitted.toList ++ symbolics ∧
      Emitted assembly.pc (assembly.emissions directives) symbolics := by
  induction directives generalizing assembly with
  | nil =>
    obtain rfl := Except.ok.inj applied
    exact ⟨[], (List.append_nil _).symm, .nil _⟩
  | cons directive later inductionHypothesis =>
    rw [applyAll] at applied
    split at applied
    · contradiction
    · rename_i next first
      obtain ⟨symbolics, appended, emitted⟩ := inductionHypothesis applied
      cases emission : directive.isEmission with
      | true =>
        obtain ⟨symbolic, emits, proper, rfl⟩ := exists_emits_of_apply first emission
        refine ⟨symbolic :: symbolics, ?_, ?_⟩
        · rw [appended, append, Array.toList_push, List.append_assoc, List.singleton_append]
        · rw [emissions, first]
          simp only [emission, if_true]
          exact .cons emits proper emitted
      | false =>
        obtain ⟨same, place⟩ := emitted_of_apply first emission
        refine ⟨symbolics, by rw [appended, same], ?_⟩
        rw [emissions, first]
        simp only [emission, Bool.false_eq_true, if_false]
        rw [← place]
        exact emitted

/-- The offset at which a label is bound by one of the directives. -/
def BoundAt (assembly : Assembly) (directives : List Directive) (label : Label) (pc : Nat) :
    Prop :=
  ∃ before after prior, directives = before ++ .bind label :: after ∧
    assembly.applyAll before = .ok prior ∧ prior.pc = pc

/-- A directive gives a place only to the label that it binds, and this label had none. -/
theorem place_of_apply (applied : assembly.apply directive = .ok next) (label : Label) :
    (directive = .bind label ∧ assembly.place label = none ∧ assembly.pc < wordLimit ∧
        next.place label = some (UInt32.ofNat assembly.pc)) ∨
      (directive ≠ .bind label ∧ next.place label = assembly.place label) := by
  cases directive with
  | newLabel =>
    refine .inr ⟨by simp, ?_⟩
    obtain rfl := Except.ok.inj applied
    simp only [place, newLabel, Array.getElem?_push]
    split
    · rename_i same
      rw [same, Array.getElem?_eq_none (Nat.le_refl _)]
      rfl
    · rfl
  | bind other =>
    rw [apply, bind] at applied
    split at applied
    · contradiction
    · rename_i fits
      split at applied
      · contradiction
      · contradiction
      · rename_i unbound
        obtain rfl := Except.ok.inj applied
        by_cases same : other = label
        · subst same
          have present := (Array.getElem?_eq_some_iff.mp unbound).1
          refine .inl ⟨rfl, by rw [place, unbound]; rfl, Nat.lt_of_not_le fits, ?_⟩
          simp only [place, Array.getElem?_setIfInBounds, if_true, if_pos present]
          rfl
        · refine .inr ⟨by simpa using same, ?_⟩
          have apart : other.index ≠ label.index := by
            intro indices
            apply same
            cases other
            cases label
            simpa using indices
          simp only [place, Array.getElem?_setIfInBounds_ne apart]
  | emit | emitUnit | emitRanges =>
    refine .inr ⟨by simp, ?_⟩
    obtain ⟨_, _, _, rfl⟩ := exists_emits_of_apply applied rfl
    rfl
  | ignoreCase | filter | deriveFilter =>
    refine .inr ⟨by simp, ?_⟩
    obtain rfl := Except.ok.inj applied
    rfl

/-- A label that has a place keeps it. -/
theorem place_of_applyAll (applied : assembly.applyAll directives = .ok final) {label : Label}
    {target : UInt32} (placed : assembly.place label = some target) :
    final.place label = some target := by
  induction directives generalizing assembly with
  | nil =>
    obtain rfl := Except.ok.inj applied
    exact placed
  | cons directive later inductionHypothesis =>
    rw [applyAll] at applied
    split at applied
    · contradiction
    · rename_i next first
      apply inductionHypothesis applied
      rcases place_of_apply first label with ⟨_, unbound, _, _⟩ | ⟨_, same⟩
      · rw [placed] at unbound
        contradiction
      · rw [same, placed]

/-- Directives carried out one list after the other. -/
theorem exists_of_applyAll_append {before after : List Directive}
    (applied : assembly.applyAll (before ++ after) = .ok final) :
    ∃ middle, assembly.applyAll before = .ok middle ∧ middle.applyAll after = .ok final := by
  induction before generalizing assembly with
  | nil => exact ⟨assembly, rfl, applied⟩
  | cons directive before inductionHypothesis =>
    rw [List.cons_append, applyAll] at applied
    split at applied
    · contradiction
    · rename_i next first
      obtain ⟨middle, reached, rest⟩ := inductionHypothesis applied
      exact ⟨middle, by rw [applyAll, first]; exact reached, rest⟩

/-- Directives behind others carry on with the assembly that those reached. -/
theorem applyAll_of_reached {before after : List Directive} {prior : Assembly}
    (reached : assembly.applyAll before = .ok prior)
    (applied : assembly.applyAll (before ++ after) = .ok final) :
    prior.applyAll after = .ok final := by
  obtain ⟨middle, again, rest⟩ := exists_of_applyAll_append applied
  obtain rfl := Except.ok.inj (reached.symm.trans again)
  exact rest

/-- A label that a directive binds has the offset as its place that the assembly had reached
there. -/
theorem place_of_boundAt (applied : assembly.applyAll directives = .ok final) {label : Label}
    {pc : Nat} (bound : assembly.BoundAt directives label pc) :
    pc < wordLimit ∧ final.place label = some (UInt32.ofNat pc) := by
  obtain ⟨before, after, prior, rfl, reached, rfl⟩ := bound
  have rest := applyAll_of_reached reached applied
  rw [applyAll] at rest
  split at rest
  · contradiction
  · rename_i next first
    rcases place_of_apply first label with ⟨_, _, fits, placed⟩ | ⟨apart, _⟩
    · exact ⟨fits, place_of_applyAll rest placed⟩
    · exact absurd rfl apart

/-- A label is bound at one offset only. -/
theorem BoundAt.unique (applied : assembly.applyAll directives = .ok final) {label : Label}
    {first second : Nat} (boundFirst : assembly.BoundAt directives label first)
    (boundSecond : assembly.BoundAt directives label second) : first = second := by
  obtain ⟨firstFits, firstPlace⟩ := place_of_boundAt applied boundFirst
  obtain ⟨secondFits, secondPlace⟩ := place_of_boundAt applied boundSecond
  have same := Option.some.inj (firstPlace.symm.trans secondPlace)
  rw [← toNat_ofNat_of_lt_wordLimit firstFits, same,
    toNat_ofNat_of_lt_wordLimit secondFits]

/-- The place of a label that had none before some directives is where one of these binds it. -/
theorem boundAt_of_place (applied : assembly.applyAll directives = .ok final) {label : Label}
    (unplaced : assembly.place label = none) {target : UInt32}
    (placed : final.place label = some target) :
    assembly.BoundAt directives label target.toNat := by
  induction directives generalizing assembly with
  | nil =>
    obtain rfl := Except.ok.inj applied
    rw [unplaced] at placed
    contradiction
  | cons directive later inductionHypothesis =>
    rw [applyAll] at applied
    split at applied
    · contradiction
    · rename_i next first
      rcases place_of_apply first label with ⟨rfl, _, fits, bound⟩ | ⟨_, same⟩
      · obtain rfl := Option.some.inj ((place_of_applyAll applied bound).symm.trans placed)
        exact ⟨[], later, assembly, rfl, rfl,
          (toNat_ofNat_of_lt_wordLimit fits).symm⟩
      · obtain ⟨before, after, prior, rfl, reached, place⟩ :=
          inductionHypothesis applied (same.trans unplaced)
        exact ⟨directive :: before, after, prior, rfl, by rw [applyAll, first]; exact reached,
          place⟩

/-- Resolving the labels of instructions keeps each instruction and its operands. -/
theorem forall₂_resolved {place : Label → Option UInt32} {pc : Nat}
    {symbolics : List (Instruction Label)} {instructions : List (Instruction UInt32)}
    (resolves : resolve place pc symbolics = .ok instructions) :
    List.Forall₂ (Instruction.Resolved fun label target => place label = some target) symbolics
      instructions := by
  induction symbolics generalizing pc instructions with
  | nil =>
    obtain rfl := Except.ok.inj resolves
    exact .nil
  | cons symbolic later inductionHypothesis =>
    rw [resolve] at resolves
    split at resolves
    · contradiction
    · rename_i instruction found
      split at resolves
      · contradiction
      · rename_i others rest
        obtain rfl := Except.ok.inj resolves
        exact .cons (Instruction.resolved_of_resolve found) (inductionHypothesis rest)

/-- What the disassembly of a program has for a directive: an entry at the offset that the
assembly had reached, with the instruction of the directive and its label resolved. -/
def Yields (meant : Label → UInt32 → Prop) (call : Nat × Directive) (entry : Located) : Prop :=
  entry.pc = call.1 ∧ ∃ symbolic, call.2.Emits symbolic ∧
    symbolic.Resolved meant entry.instruction

/-- Resolved instructions stand where their directives appended them. -/
theorem Emitted.forall₂_yields {meant : Label → UInt32 → Prop} {pc : Nat}
    {calls : List (Nat × Directive)} {symbolics : List (Instruction Label)}
    {instructions : List (Instruction UInt32)} (emitted : Emitted pc calls symbolics)
    (resolved : List.Forall₂ (Instruction.Resolved meant) symbolics instructions) :
    List.Forall₂ (Yields meant) calls (Located.layout pc instructions) := by
  induction emitted generalizing instructions with
  | nil =>
    cases resolved
    exact .nil
  | cons emits _ _ inductionHypothesis =>
    cases resolved with
    | cons head tail =>
      rw [Located.layout_cons]
      refine .cons ⟨rfl, _, emits, head⟩ ?_
      rw [head.length_eq]
      exact inductionHypothesis tail

/-- Resolved instructions can be written. -/
theorem Emitted.encodable {meant : Label → UInt32 → Prop} {pc : Nat}
    {calls : List (Nat × Directive)} {symbolics : List (Instruction Label)}
    {instructions : List (Instruction UInt32)} (emitted : Emitted pc calls symbolics)
    (resolved : List.Forall₂ (Instruction.Resolved meant) symbolics instructions) :
    ∀ instruction ∈ instructions, instruction.Encodable := by
  induction emitted generalizing instructions with
  | nil =>
    cases resolved
    simp
  | cons _ proper _ inductionHypothesis =>
    cases resolved with
    | cons head tail =>
      intro instruction member
      rcases List.mem_cons.mp member with rfl | later
      · exact head.encodable proper
      · exact inductionHypothesis tail instruction later

/-- Whether a program disassembles into what directives emit: its bytes decode to the end into
one entry for each directive that appends an instruction, in order, and every branch goes to the
only offset at which its label is bound. -/
def Disassembles (directives : List Directive) (program : Program) : Prop :=
  Disassembly.ofStream 0 program.bytes = ⟨program.entries, none⟩ ∧
  List.Forall₂ (Yields fun label target => empty.BoundAt directives label target.toNat)
    (empty.emissions directives) program.entries ∧
  ∀ label first second, empty.BoundAt directives label first →
    empty.BoundAt directives label second → first = second

/-- A finished program has the bytes of the resolved instructions. -/
theorem exists_instructions_of_finish {captures counters : Nat} {program : Program}
    (finished : assembly.finish captures counters = .ok program) :
    ∃ instructions, resolve assembly.place 0 assembly.emitted.toList = .ok instructions ∧
      program.bytes = instructions.flatMap Instruction.encode := by
  rw [finish] at finished
  split at finished
  · contradiction
  · rename_i instructions resolves
    refine ⟨instructions, resolves, ?_⟩
    split at finished
    · contradiction
    · rename_i plain accepted
      obtain rfl := Except.ok.inj finished
      -- The settings of the assembly leave the bytes alone.
      have bytes := Program.bytes_of_ofBytes accepted
      exact bytes

/-- The program that an assembly is finished to disassembles into what its directives emit. -/
theorem disassembles_of_finish (directives : List Directive) (captures counters : Nat)
    (assembly : Assembly) (program : Program)
    (applied : empty.applyAll directives = .ok assembly)
    (finished : assembly.finish captures counters = .ok program) :
    Disassembles directives program := by
  obtain ⟨symbolics, appended, emitted⟩ := exists_emitted_of_applyAll applied
  have listed : assembly.emitted.toList = symbolics := appended
  obtain ⟨instructions, resolves, bytes⟩ := exists_instructions_of_finish finished
  rw [listed] at resolves
  have resolved := forall₂_resolved resolves
  have decoded := Disassembly.ofStream_flatMap_encode (emitted.encodable resolved) 0
  have entries : program.entries = Located.layout 0 instructions := by
    rw [program.entries_eq, bytes, decoded]
  refine ⟨?_, ?_, ?_⟩
  · rw [bytes, entries, decoded]
  · rw [entries]
    refine emitted.forall₂_yields (resolved.imp fun _ _ => ?_)
    exact .mono fun label target placed => boundAt_of_place applied rfl placed
  · exact fun label first second => BoundAt.unique applied

end Assembly

end RegexMachine
