import RegexMachine.Proofs.FinishErrors
import RegexMachine.Proofs.WrittenBytes

/-!
# Programs that the assembler finishes

What calls of the assembler amount to, in terms of its own offsets. The offsets of the assembler
are those that the symbolic assembly counts, so the calls write what their directives append, at
the same offsets, and bind labels to the same places (`Assembly.emissions_written`,
`Assembler.boundAt_iff`). `Assembler.finish_disassembles` says that a finished program disassembles
into the calls, and `Assembler.finish_reports` why calls can not be finished.
-/

namespace RegexMachine

namespace Call

variable {call : Call} {calls : List Call} {label : Label}

/-- A call emits if its directive does. -/
@[simp] theorem isEmission_directive (call : Call) :
    call.directive.isEmission = call.isEmission := by
  cases call <;> rfl

/-- Only the call that binds a label is the directive for it. -/
theorem directive_eq_bind_iff : call.directive = .bind label ↔ call = .bind label := by
  cases call <;> simp [directive]

/-- A call is a branch if its directive appends one. -/
theorem target?_eq_some_iff :
    call.target? = some label ↔
      ∃ instruction, call.directive = .emit instruction ∧ instruction.target? = some label := by
  cases call <;> simp [directive, target?, Instruction.target?]

/-- A label is bound by calls if it is bound by their directives. -/
theorem bind_mem_iff : .bind label ∈ calls.map directive ↔ .bind label ∈ calls := by
  rw [List.mem_map]
  constructor
  · rintro ⟨call, member, same⟩
    exact directive_eq_bind_iff.mp same ▸ member
  · exact fun member => ⟨_, member, rfl⟩

/-- Where the directives of calls are split the calls are. -/
theorem exists_split_of_map {before after : List Directive} {directive : Directive}
    (split : calls.map Call.directive = before ++ directive :: after) :
    ∃ front call back, calls = front ++ call :: back ∧ front.map Call.directive = before ∧
      call.directive = directive := by
  obtain ⟨front, rest, rfl, rfl, behind⟩ := List.map_eq_append_iff.mp split
  obtain ⟨call, back, rfl, same, _⟩ := List.map_eq_cons_iff.mp behind
  exact ⟨front, call, back, rfl, rfl, same⟩

/-- The first of several calls are about labels that are made if all are. -/
theorem labelsMade_front {created : Nat} {before after : List Call}
    (made : labelsMade created (before ++ after) = true) : labelsMade created before = true := by
  induction before generalizing created with
  | nil => rfl
  | cons call before inductionHypothesis =>
    obtain ⟨known, rest⟩ := labelsMade_cons_iff.mp made
    exact labelsMade_cons_iff.mpr ⟨known, inductionHypothesis rest⟩

end Call

namespace Assembler

variable {assembler : Assembler} {calls : List Call} {label : Label} {pc : Nat}

/-- The calls that write an instruction, in order, each with the offset that the assembler has
reached before it. -/
def emissions (assembler : Assembler) : List Call → List (Nat × Call)
  | [] => []
  | call :: later =>
    match assembler.apply call with
    | .error _ => []
    | .ok next =>
      if call.isEmission then (assembler.pc, call) :: next.emissions later
      else next.emissions later

/-- The offset at which a label is bound by one of the calls. -/
def BoundAt (calls : List Call) (label : Label) (pc : Nat) : Prop :=
  ∃ before after prior, calls = before ++ .bind label :: after ∧
    empty.applyAll before = .ok prior ∧ prior.pc = pc

/-- The offset at which one of the calls writes a branch to a label. -/
def BranchesAt (calls : List Call) (label : Label) (pc : Nat) : Prop :=
  ∃ before call after prior, calls = before ++ call :: after ∧
    empty.applyAll before = .ok prior ∧ prior.pc = pc ∧ call.target? = some label

/-- The offset of the first branch whose label is not bound by any of the calls. -/
structure FirstUnbound (calls : List Call) (pc : Nat) : Prop where
  unbound : ∃ label, BranchesAt calls label pc ∧ .bind label ∉ calls
  earlier : ∀ label place, BranchesAt calls label place → place < pc → .bind label ∈ calls

/-- What the disassembly of a program has for a call: an entry at the offset that the assembler
had reached, with the instruction of the call and its label resolved. -/
def Yields (meant : Label → UInt32 → Prop) (emission : Nat × Call) (entry : Located) : Prop :=
  entry.pc = emission.1 ∧ ∃ symbolic, emission.2.directive.Emits symbolic ∧
    symbolic.Resolved meant entry.instruction

/-- Whether a program disassembles into calls: its bytes decode to the end into one entry for each
call that writes an instruction, in order, and every branch goes to the only offset at which its
label is bound. -/
def Disassembles (calls : List Call) (program : Program) : Prop :=
  Disassembly.ofStream 0 program.bytes = ⟨program.entries, none⟩ ∧
  List.Forall₂ (Yields fun label target => BoundAt calls label target.toNat)
    (empty.emissions calls) program.entries ∧
  ∀ label first second, BoundAt calls label first → BoundAt calls label second → first = second

/-- Calls from the start on reach the assembler that has written what their directives reach. -/
theorem applyAll_eq_ok_iff (made : Call.labelsMade 0 calls = true) :
    empty.applyAll calls = .ok assembler ↔
      ∃ assembly, Assembly.empty.applyAll (calls.map Call.directive) = .ok assembly ∧
        assembly.written = assembler := by
  have same : empty.applyAll calls = _ := Assembly.written_applyAll .empty calls made
  rw [same]
  cases Assembly.empty.applyAll (calls.map Call.directive) with
  | error misuse => simp [Except.map]
  | ok assembly => simp [Except.map]

/-- A label is bound where the directives of the calls bind it. -/
theorem boundAt_iff (made : Call.labelsMade 0 calls = true) :
    BoundAt calls label pc ↔ Assembly.empty.BoundAt (calls.map Call.directive) label pc := by
  constructor
  · rintro ⟨before, after, _, rfl, reached, rfl⟩
    obtain ⟨prior, listed, rfl⟩ := (applyAll_eq_ok_iff (Call.labelsMade_front made)).mp reached
    exact ⟨_, _, prior, List.map_append, listed, (Assembly.pc_written prior).symm⟩
  · rintro ⟨_, _, prior, split, reached, rfl⟩
    obtain ⟨before, call, after, rfl, rfl, same⟩ := Call.exists_split_of_map split
    obtain rfl := Call.directive_eq_bind_iff.mp same
    exact ⟨before, after, prior.written, rfl,
      (applyAll_eq_ok_iff (Call.labelsMade_front made)).mpr ⟨prior, reached, rfl⟩,
      Assembly.pc_written prior⟩

/-- A branch is written where the directives of the calls append it. -/
theorem branchesAt_iff (made : Call.labelsMade 0 calls = true) :
    BranchesAt calls label pc ↔ Assembly.empty.BranchesAt (calls.map Call.directive) label pc := by
  constructor
  · rintro ⟨before, call, after, _, rfl, reached, rfl, jumps⟩
    obtain ⟨prior, listed, rfl⟩ := (applyAll_eq_ok_iff (Call.labelsMade_front made)).mp reached
    obtain ⟨instruction, same, goes⟩ := Call.target?_eq_some_iff.mp jumps
    exact ⟨_, instruction, _, prior, by rw [List.map_append, List.map_cons, same], listed,
      (Assembly.pc_written prior).symm, goes⟩
  · rintro ⟨_, instruction, _, prior, split, reached, rfl, jumps⟩
    obtain ⟨before, call, after, rfl, rfl, same⟩ := Call.exists_split_of_map split
    exact ⟨before, call, after, prior.written, rfl,
      (applyAll_eq_ok_iff (Call.labelsMade_front made)).mpr ⟨prior, reached, rfl⟩,
      Assembly.pc_written prior, Call.target?_eq_some_iff.mpr ⟨instruction, same, jumps⟩⟩

/-- The first branch without a bound label is that of the directives of the calls. -/
theorem firstUnbound_iff (made : Call.labelsMade 0 calls = true) :
    FirstUnbound calls pc ↔ Assembly.FirstUnbound (calls.map Call.directive) pc := by
  constructor
  · rintro ⟨unbound, earlier⟩
    simp only [branchesAt_iff made, ← Call.bind_mem_iff] at unbound earlier
    exact ⟨unbound, earlier⟩
  · rintro ⟨unbound, earlier⟩
    simp only [← branchesAt_iff made, Call.bind_mem_iff] at unbound earlier
    exact ⟨unbound, earlier⟩

end Assembler

/-- Calls write where their directives append. -/
theorem Assembly.emissions_written (assembly : Assembly) (calls : List Call)
    (made : Call.labelsMade assembly.labels.size calls = true) :
    assembly.emissions (calls.map Call.directive) =
      (assembly.written.emissions calls).map fun emission =>
        (emission.1, emission.2.directive) := by
  induction calls generalizing assembly with
  | nil => rfl
  | cons call later inductionHypothesis =>
    obtain ⟨known, rest⟩ := Call.labelsMade_cons_iff.mp made
    rw [List.map_cons, emissions, Assembler.emissions, written_apply assembly call known,
      Call.isEmission_directive, pc_written]
    cases applied : assembly.apply call.directive with
    | error misuse => rfl
    | ok next =>
      have later := inductionHypothesis next
        (by simpa only [size_labels_of_apply applied, Call.directive_eq_newLabel_iff] using rest)
      simp only [Except.map, later]
      split <;> rfl

namespace Assembler

/-- The program that calls are finished to disassembles into the calls. -/
theorem finish_disassembles (calls : List Call) (captures counters : Nat) (assembler : Assembler)
    (program : Program) (made : Call.labelsMade 0 calls = true)
    (applied : empty.applyAll calls = .ok assembler)
    (finished : assembler.finish captures counters = .ok (.ok program)) :
    Disassembles calls program := by
  obtain ⟨assembly, listed, rfl⟩ := (applyAll_eq_ok_iff made).mp applied
  have known := Assembly.labelsKnown_empty.applyAll listed
  rw [Assembly.finish_written assembly captures counters known] at finished
  obtain ⟨decodes, yields, unique⟩ :=
    Assembly.disassembles_of_finish _ captures counters assembly program listed
      (Except.ok.inj finished)
  refine ⟨decodes, ?_, ?_⟩
  · rw [Assembly.emissions_written .empty calls made, List.forall₂_map_left_iff] at yields
    simp only [← boundAt_iff made] at yields
    exact yields
  · intro label first second
    rw [boundAt_iff made, boundAt_iff made]
    exact unique label first second

/-- A loop whose exit is bound behind the branch to it, and whose top is bound before. -/
theorem finish_disassembles_loop :
    ∃ assembler program,
      Call.labelsMade 0 [.newLabel, .newLabel, .bind ⟨0⟩, .pushBacktrack ⟨1⟩, .checkChar 97,
        .jump ⟨0⟩, .bind ⟨1⟩, .success] = true ∧
      empty.applyAll [.newLabel, .newLabel, .bind ⟨0⟩, .pushBacktrack ⟨1⟩, .checkChar 97,
        .jump ⟨0⟩, .bind ⟨1⟩, .success] = .ok assembler ∧
      assembler.finish 1 0 = .ok (.ok program) ∧
      Disassembles [.newLabel, .newLabel, .bind ⟨0⟩, .pushBacktrack ⟨1⟩, .checkChar 97,
        .jump ⟨0⟩, .bind ⟨1⟩, .success] program := by
  have builds : ((empty.applyAll [.newLabel, .newLabel, .bind ⟨0⟩, .pushBacktrack ⟨1⟩,
      .checkChar 97, .jump ⟨0⟩, .bind ⟨1⟩, .success]).toOption.map fun assembler =>
        decide (((assembler.finish 1 0).toOption.map fun answer =>
          decide (answer.isOk = true)) = some true)) = some true := by
    decide +kernel
  obtain ⟨assembler, applied, builds⟩ := exists_ok_of_decide builds
  obtain ⟨answer, finished, succeeds⟩ := exists_ok_of_decide builds
  cases answer with
  | error error => contradiction
  | ok program =>
    exact ⟨assembler, program, rfl, applied, finished,
      finish_disassembles _ 1 0 assembler program rfl applied finished⟩

/-- Finishing calls that are about labels of the same assembler never breaks off. It reports a
label that is never bound exactly at the first branch to one, whatever else is wrong. Otherwise it
never refuses an encoding, and a target only where the label of the branch was bound behind the
last instruction. It succeeds exactly if the calls complete a program. -/
theorem finish_reports (calls : List Call) (captures counters : Nat) (assembler : Assembler)
    (made : Call.labelsMade 0 calls = true) (applied : empty.applyAll calls = .ok assembler) :
    (∃ answer, assembler.finish captures counters = .ok answer) ∧
    (∀ pc, assembler.finish captures counters = .ok (.error (.instruction pc .unboundLabel)) ↔
      FirstUnbound calls pc) ∧
    (∀ label pc, BranchesAt calls label pc → .bind label ∉ calls → ∃ first, first ≤ pc ∧
      assembler.finish captures counters = .ok (.error (.instruction first .unboundLabel))) ∧
    (∀ pc defect,
      assembler.finish captures counters = .ok (.error (.instruction pc defect)) →
      (∀ tag, defect ≠ .unknownOpcode tag) ∧ defect ≠ .truncated ∧ defect ≠ .invalidRangeTable ∧
        defect ≠ .emptyLiteral ∧
        ∀ target, defect = .invalidTarget target → ∃ label, BranchesAt calls label pc ∧
          Assembly.BoundAtEnd (calls.map Call.directive) label) ∧
    ((∃ program, assembler.finish captures counters = .ok (.ok program)) ↔
      Assembly.Completes (calls.map Call.directive) captures counters) := by
  obtain ⟨assembly, listed, rfl⟩ := (applyAll_eq_ok_iff made).mp applied
  have known := Assembly.labelsKnown_empty.applyAll listed
  simp only [Assembly.finish_written assembly captures counters known, Except.ok.injEq,
    firstUnbound_iff made, branchesAt_iff made, ← Call.bind_mem_iff]
  exact ⟨⟨_, rfl⟩, Assembly.reports_of_finish _ captures counters assembly listed⟩

/-- A program without groups that continues past its end, with a branch to a label that is bound at
the end in front of one to a label that is never bound: only the latter is reported. -/
theorem finish_reports_unbound :
    ∃ assembler,
      Call.labelsMade 0 [.newLabel, .newLabel, .jump ⟨0⟩, .pushBacktrack ⟨1⟩, .checkChar 97,
        .bind ⟨0⟩] = true ∧
      empty.applyAll [.newLabel, .newLabel, .jump ⟨0⟩, .pushBacktrack ⟨1⟩, .checkChar 97,
        .bind ⟨0⟩] = .ok assembler ∧
      assembler.finish 0 0 = .ok (.error (.instruction 5 .unboundLabel)) ∧
      FirstUnbound [.newLabel, .newLabel, .jump ⟨0⟩, .pushBacktrack ⟨1⟩, .checkChar 97,
        .bind ⟨0⟩] 5 := by
  have builds : ((empty.applyAll [.newLabel, .newLabel, .jump ⟨0⟩, .pushBacktrack ⟨1⟩,
      .checkChar 97, .bind ⟨0⟩]).toOption.map fun assembler =>
        decide (((assembler.finish 0 0).toOption.map fun answer =>
          decide (answer.map (fun _ => ()) = .error (.instruction 5 .unboundLabel))) =
            some true)) = some true := by
    decide +kernel
  obtain ⟨assembler, applied, builds⟩ := exists_ok_of_decide builds
  obtain ⟨answer, finished, reports⟩ := exists_ok_of_decide builds
  cases answer with
  | ok program => contradiction
  | error error =>
    obtain rfl := Except.error.inj reports
    exact ⟨assembler, rfl, applied, finished,
      ((finish_reports _ 0 0 assembler rfl applied).2.1 5).mp finished⟩

end Assembler

end RegexMachine
