import RegexMachine.Proofs.Assembling

/-!
# The bytes that the assembler writes

The assembler is the symbolic assembly written out: each instruction is encoded with a target of
zero, and each branch leaves a hole over that target (`Assembly.written`). Every call writes the
instruction that its directive appends (`Assembly.written_apply`). Filling the holes in order turns
the bytes of the instructions into those of the resolved ones, where a hole never reaches into
another instruction (`Assembler.fill_holes`). So both finish to the same program
(`Assembly.finish_written`).
-/

namespace RegexMachine

open LittleEndian

namespace Instruction

variable {Target Other : Type}

/-- The instruction with another target, if it has one. -/
def retarget (target : Other) : Instruction Target → Instruction Other
  | .storeSp slot => .storeSp slot
  | .storePosition slot => .storePosition slot
  | .positionTest slot => .positionTest slot
  | .assertionSuccess slot _ => .assertionSuccess slot target
  | .assertionFailure slot => .assertionFailure slot
  | .assertion anchor => .assertion anchor
  | .startCapture group => .startCapture group
  | .endCapture group => .endCapture group
  | .clearCaptures first stop => .clearCaptures first stop
  | .counterZero slot => .counterZero slot
  | .counterNext slot max _ => .counterNext slot max target
  | .pushBacktrack _ => .pushBacktrack target
  | .backReference group ignoreCase => .backReference group ignoreCase
  | .checkByte unit => .checkByte unit
  | .checkUnit unit => .checkUnit unit
  | .checkAny units => .checkAny units
  | .checkRange ranges count inverted => .checkRange ranges count inverted
  | .checkLiteral units => .checkLiteral units
  | .jump _ => .jump target
  | .failure => .failure
  | .success => .success

/-- Another target takes as many bytes. -/
@[simp] theorem length_retarget (target : Other) (symbolic : Instruction Target) :
    (symbolic.retarget target).length = symbolic.length := by
  cases symbolic <;> rfl

/-- An instruction is resolved by the place of its target, if it has one. -/
theorem resolve_eq (place : Target → Option UInt32) (symbolic : Instruction Target) :
    symbolic.resolve place =
      match symbolic.target? with
      | none => some (symbolic.retarget 0)
      | some label => (place label).map symbolic.retarget := by
  cases symbolic <;> rfl

/-- The target of a branch is the last of its operands. -/
theorem exists_encode_retarget {symbolic : Instruction Target} {label : Target}
    (jumps : symbolic.target? = some label) :
    ∃ front, front.length + 4 = symbolic.length ∧
      ∀ target, (symbolic.retarget target).encode = front ++ ofUInt32 target := by
  cases symbolic with
  | assertionSuccess slot =>
    exact ⟨Opcode.assertionSuccess.tag :: ofUInt32 slot, rfl, fun _ => rfl⟩
  | counterNext slot max =>
    exact ⟨Opcode.counterNext.tag :: (ofUInt32 slot ++ ofUInt32 max), rfl, fun _ => rfl⟩
  | pushBacktrack => exact ⟨[Opcode.pushBacktrack.tag], rfl, fun _ => rfl⟩
  | jump => exact ⟨[Opcode.jump.tag], rfl, fun _ => rfl⟩
  | _ => contradiction

/-- The bytes of instructions with zeros in the holes. -/
def blankBytes (symbolics : List (Instruction Label)) : List UInt8 :=
  symbolics.flatMap fun symbolic => (symbolic.retarget 0).encode

/-- The holes of instructions from an offset on. -/
def holes (pc : Nat) : List (Instruction Label) → List Hole
  | [] => []
  | symbolic :: later =>
    match symbolic.target? with
    | none => holes (pc + symbolic.length) later
    | some label =>
      ⟨pc + (symbolic.length - 4), pc, label⟩ :: holes (pc + symbolic.length) later

@[simp] theorem blankBytes_append (before after : List (Instruction Label)) :
    blankBytes (before ++ after) = blankBytes before ++ blankBytes after :=
  List.flatMap_append

/-- Blank instructions take the bytes of the instructions. -/
@[simp] theorem length_blankBytes (symbolics : List (Instruction Label)) :
    (blankBytes symbolics).length = totalLength symbolics := by
  induction symbolics with
  | nil => rfl
  | cons symbolic later inductionHypothesis =>
    rw [totalLength_cons, ← inductionHypothesis, ← length_retarget (0 : UInt32), ← length_encode,
      ← List.length_append]
    rfl

/-- The holes of instructions that follow others come behind theirs. -/
theorem holes_append (pc : Nat) (before after : List (Instruction Label)) :
    holes pc (before ++ after) = holes pc before ++ holes (pc + totalLength before) after := by
  induction before generalizing pc with
  | nil => rfl
  | cons symbolic before inductionHypothesis =>
    rw [List.cons_append, holes, holes, inductionHypothesis, totalLength_cons, Nat.add_assoc]
    split <;> rfl

end Instruction

namespace Assembler

variable {assembler : Assembler}

/-! What the methods write. -/

/-- Bytes are written one list behind the other. -/
theorem put_put (first second : List UInt8) :
    (assembler.put first).put second = assembler.put (first ++ second) := by
  have bytes : assembler.bytes ++ first ++ second = assembler.bytes ++ (first ++ second) :=
    Array.toList_inj.mp (by simp only [Array.toList_appendList, List.append_assoc])
  rw [put, put, put, bytes]

/-- Written bytes are counted. -/
@[simp] theorem pc_put (bytes : List UInt8) :
    (assembler.put bytes).pc = assembler.pc + bytes.length := by
  rw [pc, pc, put, ← Array.length_toList, Array.toList_appendList, List.length_append,
    Array.length_toList]

/-- The assembler with the bytes of an instruction and a hole over its target. -/
def write (assembler : Assembler) (symbolic : Instruction Label) : Assembler :=
  { assembler.put (symbolic.retarget 0).encode with
    holes := assembler.holes ++ Instruction.holes assembler.pc [symbolic] }

/-- An instruction without a target leaves no hole. -/
theorem write_of_target? {symbolic : Instruction Label} (none : symbolic.target? = none) :
    assembler.write symbolic = assembler.put (symbolic.retarget 0).encode := by
  rw [write, Instruction.holes, none]
  rfl

/-- An opcode and a word. -/
theorem emitWord_eq (opcode : Opcode) (operand : UInt32) :
    assembler.emitWord opcode operand = assembler.put (opcode.tag :: ofUInt32 operand) :=
  put_put _ _

/-- Items are written one behind the other. -/
theorem foldl_put {Item : Type} (encode : Item → List UInt8) (items : List Item) :
    items.foldl (fun assembler item => assembler.put (encode item)) assembler =
      assembler.put (items.flatMap encode) := by
  induction items generalizing assembler with
  | nil => rfl
  | cons item later inductionHypothesis =>
    rw [List.foldl_cons, inductionHypothesis, put_put, List.flatMap_cons]

/-- Units are written one behind the other. -/
theorem putUnits_eq (units : List UInt16) :
    assembler.putUnits units = assembler.put (units.flatMap ofUInt16) :=
  foldl_put ofUInt16 units

/-- Ranges are written one behind the other. -/
theorem putRanges_eq (ranges : List UnitRange) :
    assembler.putRanges ranges = assembler.put (ranges.flatMap UnitRange.encode) := by
  have both : (fun (assembler : Assembler) (range : UnitRange) =>
      (assembler.put2 range.first).put2 range.last) =
        fun assembler range => assembler.put range.encode :=
    funext₂ fun _ _ => put_put _ _
  rw [putRanges, both, foldl_put]

/-- An opcode, words and zeros in place of a target, with a hole over the zeros. -/
theorem emitBranch_eq (opcode : Opcode) (operands : List UInt32) (target : Label) :
    assembler.emitBranch opcode operands target =
      { assembler.put (opcode.tag :: (operands.flatMap ofUInt32 ++ ofUInt32 0)) with
        holes := assembler.holes.push
          ⟨assembler.pc + ((operands.flatMap ofUInt32).length + 1), assembler.pc, target⟩ } := by
  have front : operands.foldl put4 (assembler.op opcode) =
      assembler.put (opcode.tag :: operands.flatMap ofUInt32) := by
    have words : operands.foldl put4 (assembler.op opcode) = _ := foldl_put ofUInt32 operands
    rw [words, op, put_put, List.singleton_append]
  have whole : (assembler.put (opcode.tag :: operands.flatMap ofUInt32)).put (ofUInt32 0) = _ :=
    put_put _ _
  rw [emitBranch, front, putTarget, pc_put, List.length_cons, ← List.cons_append, ← whole]
  rfl

end Assembler

namespace Assembly

variable {assembly : Assembly} {symbolic : Instruction Label}

/-- The assembler that has written the instructions of an assembly. -/
def written (assembly : Assembly) : Assembler where
  bytes := (Instruction.blankBytes assembly.emitted.toList).toArray
  labels := assembly.labels
  holes := (Instruction.holes 0 assembly.emitted.toList).toArray
  ignoreCase := assembly.ignoreCase
  filter := assembly.filter
  deriveFilter := assembly.deriveFilter

/-- The assembler has come as far as the assembly counts. -/
@[simp] theorem pc_written (assembly : Assembly) : assembly.written.pc = assembly.pc := by
  rw [Assembler.pc, written, List.size_toArray, Instruction.length_blankBytes, assembly.pc_eq]

/-- An appended instruction is written. -/
theorem written_append (assembly : Assembly) (symbolic : Instruction Label) :
    (assembly.append symbolic).written = assembly.written.write symbolic := by
  have bytes : Instruction.blankBytes (assembly.emitted.push symbolic).toList =
      Instruction.blankBytes assembly.emitted.toList ++ (symbolic.retarget 0).encode := by
    rw [Array.toList_push, Instruction.blankBytes_append]
    exact congrArg _ (List.append_nil _)
  have holes : Instruction.holes 0 (assembly.emitted.push symbolic).toList =
      Instruction.holes 0 assembly.emitted.toList ++ Instruction.holes assembly.pc [symbolic] := by
    rw [Array.toList_push, Instruction.holes_append, Nat.zero_add, assembly.pc_eq]
  rw [Assembler.write, pc_written]
  simp only [written, append, Assembler.put, bytes, holes, List.toArray_appendList]

/-- What an instruction writes that can be appended. -/
theorem map_written_emit (proper : symbolic.misuse? = none)
    (known : ∀ label, symbolic.target? = some label → label.index < assembly.labels.size) :
    (assembly.emit symbolic).map written = .ok (assembly.written.write symbolic) := by
  rw [emit_eq_ok proper known, Except.map, written_append]

/-- What an instruction without a target writes that can be appended. -/
theorem map_written_emit_silent (proper : symbolic.misuse? = none)
    (none : symbolic.target? = none) :
    (assembly.emit symbolic).map written =
      .ok (assembly.written.put (symbolic.retarget 0).encode) := by
  rw [map_written_emit proper (by simp [none]), Assembler.write_of_target? none]

/-- A label is bound to the place that the assembly counts. -/
theorem written_bind (assembly : Assembly) (label : Label) :
    assembly.written.bind label = (assembly.bind label).map written := by
  rw [Assembler.bind, bind, pc_written, toWord]
  by_cases fits : assembly.pc < wordLimit
  · rw [if_pos fits, if_neg (Nat.not_le.mpr fits)]
    simp only [written]
    cases assembly.labels[label.index]? with
    | none => rfl
    | some place => cases place <;> rfl
  · rw [if_neg fits, if_pos (Nat.le_of_not_lt fits)]
    rfl

/-- A choice is written if it has two to four units. -/
theorem written_checkCharOr (assembly : Assembly) (units : List UInt16) :
    assembly.written.checkCharOr units = (assembly.emit (.checkAny units)).map written := by
  by_cases few : 2 ≤ units.length ∧ units.length ≤ 4
  · have proper : (Instruction.checkAny units : Instruction Label).misuse? = none := by
      simp [Instruction.misuse?, few]
    rw [map_written_emit_silent proper rfl, Assembler.checkCharOr]
    obtain two | three | four : units.length = 2 ∨ units.length = 3 ∨ units.length = 4 := by omega
    all_goals
      simp only [Instruction.retarget, Instruction.encode, *, Assembler.putUnits_eq, Assembler.op,
        Assembler.put_put, List.singleton_append]
  · have refused : (Instruction.checkAny units : Instruction Label).misuse? =
        some (.choiceSize units.length) := by
      simp [Instruction.misuse?, few]
    rw [emit, refused, Assembler.checkCharOr]
    split
    case h_4 => rfl
    all_goals omega

/-- A table is written if its units and its size can be counted. -/
theorem written_checkRange (assembly : Assembly) (ranges : List UnitRange) (inverted : Bool) :
    assembly.written.checkRange ranges inverted =
      (assembly.apply (.emitRanges ranges inverted)).map written := by
  rw [Assembler.checkRange, apply]
  cases UnitRange.tableCount ranges with
  | error misuse => rfl
  | ok count =>
    by_cases fits : 4 * ranges.length < wordLimit
    · have proper : (Instruction.checkRange ranges count inverted : Instruction Label).misuse? =
          none := if_pos fits
      simp only [map_written_emit_silent proper rfl, toWord, if_pos fits, Instruction.retarget,
        Instruction.encode, Assembler.putRanges_eq, Assembler.op, Assembler.put4,
        Assembler.put_put, List.append_assoc, List.singleton_append]
      rfl
    · have refused : (Instruction.checkRange ranges count inverted : Instruction Label).misuse? =
          some .programTooLarge := if_neg fits
      simp only [toWord, if_neg fits, emit, refused]
      rfl

/-- A literal is written if it has units and they can be counted. -/
theorem written_checkNChars (assembly : Assembly) (units : List UInt16) :
    assembly.written.checkNChars units = (assembly.emit (.checkLiteral units)).map written := by
  cases units with
  | nil => rfl
  | cons first later =>
    rw [Assembler.checkNChars, toWord]
    by_cases fits : (first :: later).length < wordLimit
    · have proper : (Instruction.checkLiteral (first :: later) : Instruction Label).misuse? =
          none := if_pos fits
      simp only [map_written_emit_silent proper rfl, if_pos fits, Instruction.retarget,
        Instruction.encode, Assembler.putUnits_eq, Assembler.op, Assembler.put4,
        Assembler.put_put, List.singleton_append]
      rfl
    · have refused : (Instruction.checkLiteral (first :: later) : Instruction Label).misuse? =
          some .programTooLarge := if_neg fits
      simp only [if_neg fits, emit, refused]
      rfl

/-- A call writes the instruction that its directive appends, and is refused if the directive
is. -/
theorem written_apply (assembly : Assembly) (call : Call)
    (known : ∀ label, call.label? = some label → label.index < assembly.labels.size) :
    assembly.written.apply call = (assembly.apply call.directive).map written := by
  cases call with
  | newLabel | ignoreCase | filter | deriveFilter => rfl
  | bind label => exact written_bind assembly label
  | storeSp | storePosition | positionTest | assertionFailure | startCapture | endCapture
  | counterZero =>
    simp only [Call.directive, apply]
    rw [map_written_emit_silent rfl rfl]
    exact congrArg Except.ok (Assembler.emitWord_eq _ _)
  | assertion | failure | success =>
    simp only [Call.directive, apply]
    rw [map_written_emit_silent rfl rfl]
    rfl
  | assertionSuccess | counterNext | pushBacktrack | jump =>
    simp only [Call.directive, apply]
    exact Eq.trans (congrArg Except.ok (Assembler.emitBranch_eq _ _ _))
      (Eq.symm (map_written_emit rfl known))
  | clearCaptures first stop =>
    simp only [Call.directive, apply]
    rw [map_written_emit_silent rfl rfl]
    simp only [Assembler.apply, Assembler.clearCaptures, Assembler.op, Assembler.put4,
      Assembler.put_put, List.append_assoc]
    rfl
  | backReference group anyCase =>
    simp only [Call.directive, apply]
    rw [map_written_emit_silent rfl rfl]
    cases anyCase <;> exact congrArg Except.ok (Assembler.put_put _ _)
  | checkChar unit =>
    simp only [Call.directive, apply, Assembler.apply, Assembler.checkChar, Instruction.ofUnit]
    by_cases narrow : unit < 256
    · rw [if_pos narrow, if_pos narrow, map_written_emit_silent rfl rfl]
      exact congrArg Except.ok (Assembler.put_put _ _)
    · rw [if_neg narrow, if_neg narrow, map_written_emit_silent rfl rfl]
      exact congrArg Except.ok (Assembler.put_put _ _)
  | checkCharOr units => exact written_checkCharOr assembly units
  | checkRange ranges inverted => exact written_checkRange assembly ranges inverted
  | checkNChars units => exact written_checkNChars assembly units

/-- Whether every label that instructions branch to was created. -/
def LabelsKnown (assembly : Assembly) : Prop :=
  ∀ symbolic ∈ assembly.emitted.toList, ∀ label, symbolic.target? = some label →
    label.index < assembly.labels.size

/-- Without instructions there are no branches. -/
theorem labelsKnown_empty : empty.LabelsKnown :=
  fun _ member => absurd member List.not_mem_nil

variable {next final : Assembly} {directive : Directive} {directives : List Directive}

/-- Only a directive that creates a label changes their number. -/
theorem size_labels_of_apply (applied : assembly.apply directive = .ok next) :
    next.labels.size = assembly.labels.size + if directive = .newLabel then 1 else 0 := by
  cases directive with
  | newLabel =>
    obtain rfl := Except.ok.inj applied
    exact Array.size_push _
  | bind label =>
    rw [apply, bind] at applied
    split at applied
    · contradiction
    · split at applied
      · contradiction
      · contradiction
      · obtain rfl := Except.ok.inj applied
        exact Array.size_setIfInBounds
  | ignoreCase | filter | deriveFilter =>
    obtain rfl := Except.ok.inj applied
    rfl
  | emit | emitUnit | emitRanges =>
    obtain ⟨_, _, _, rfl⟩ := exists_emits_of_apply applied rfl
    rfl

/-- A directive branches to labels only that were created. -/
theorem LabelsKnown.apply (known : assembly.LabelsKnown)
    (applied : assembly.apply directive = .ok next) : next.LabelsKnown := by
  have count := size_labels_of_apply applied
  intro symbolic member label jumps
  cases emission : directive.isEmission with
  | true =>
    obtain ⟨appended, _, emits⟩ := exists_emit_of_apply applied emission
    obtain ⟨_, rfl⟩ := eq_append_of_emit emits
    rw [append, Array.toList_push, List.mem_append, List.mem_singleton] at member
    rcases member with earlier | rfl
    · exact known symbolic earlier label jumps
    · exact known_of_emit emits jumps
  | false =>
    rw [(emitted_of_apply applied emission).1] at member
    exact Nat.lt_of_lt_of_le (known symbolic member label jumps) (by omega)

/-- Directives branch to labels only that were created. -/
theorem LabelsKnown.applyAll (known : assembly.LabelsKnown)
    (applied : assembly.applyAll directives = .ok final) : final.LabelsKnown := by
  induction directives generalizing assembly with
  | nil =>
    obtain rfl := Except.ok.inj applied
    exact known
  | cons directive later inductionHypothesis =>
    rw [Assembly.applyAll] at applied
    split at applied
    · contradiction
    · rename_i next first
      exact inductionHypothesis (known.apply first) applied

end Assembly

namespace Call

/-- Whether every label that calls are about is one of the first `created` ones, or an earlier
call creates it. -/
def labelsMade (created : Nat) : List Call → Bool
  | [] => true
  | call :: later =>
    call.label?.all (fun label => label.index < created) &&
      labelsMade (created + if call = .newLabel then 1 else 0) later

/-- The labels of calls are made if those of the first call are and those of the others are then. -/
theorem labelsMade_cons_iff {created : Nat} {call : Call} {later : List Call} :
    labelsMade created (call :: later) = true ↔
      (∀ label, call.label? = some label → label.index < created) ∧
        labelsMade (created + if call = .newLabel then 1 else 0) later = true := by
  rw [labelsMade, Bool.and_eq_true, Option.all_eq_true]
  simp only [decide_eq_true_iff]

/-- Only the call that creates a label is the directive for it. -/
theorem directive_eq_newLabel_iff {call : Call} :
    call.directive = .newLabel ↔ call = .newLabel := by
  cases call <;> simp [directive]

end Call

namespace Assembly

/-- Calls write the instructions that their directives append, up to one that is refused. -/
theorem written_applyAll (assembly : Assembly) (calls : List Call)
    (made : Call.labelsMade assembly.labels.size calls = true) :
    assembly.written.applyAll calls =
      (assembly.applyAll (calls.map Call.directive)).map written := by
  induction calls generalizing assembly with
  | nil => rfl
  | cons call later inductionHypothesis =>
    obtain ⟨known, rest⟩ := Call.labelsMade_cons_iff.mp made
    rw [Assembler.applyAll, List.map_cons, applyAll, written_apply assembly call known]
    cases applied : assembly.apply call.directive with
    | error misuse => rfl
    | ok next =>
      refine inductionHypothesis next ?_
      simpa only [size_labels_of_apply applied, Call.directive_eq_newLabel_iff] using rest

end Assembly

namespace Assembler

/-- Bytes are written over as many others, and the bytes around those stay. -/
theorem patch_append (before : List UInt8) {old bytes : List UInt8} (after : List UInt8)
    (sized : old.length = bytes.length) :
    patch (before ++ (old ++ after)).toArray before.length bytes =
      (before ++ (bytes ++ after)).toArray := by
  induction bytes generalizing before old with
  | nil =>
    obtain rfl := List.length_eq_zero_iff.mp sized
    rfl
  | cons byte bytes inductionHypothesis =>
    obtain ⟨first, others, rfl⟩ := List.exists_cons_of_length_eq_add_one sized
    have further := inductionHypothesis (before ++ [byte]) (Nat.succ.inj sized)
    simp only [List.length_append, List.length_singleton, List.append_assoc,
      List.singleton_append] at further
    rw [patch, List.setIfInBounds_toArray, List.set_append_right _ _ (Nat.le_refl _),
      Nat.sub_self, List.cons_append, List.set_cons_zero, further, List.cons_append]

/-- Filling the hole of a branch gives it its target and leaves the bytes around it alone. -/
theorem patch_hole (front after : List UInt8) {symbolic : Instruction Label} {label : Label}
    (jumps : symbolic.target? = some label) (target : UInt32) :
    patch (front ++ ((symbolic.retarget (0 : UInt32)).encode ++ after)).toArray
        (front.length + (symbolic.length - 4)) (ofUInt32 target) =
      (front ++ ((symbolic.retarget target).encode ++ after)).toArray := by
  obtain ⟨opening, length, encode⟩ := Instruction.exists_encode_retarget jumps
  have sized : (ofUInt32 0).length = (ofUInt32 target).length := rfl
  have operand : (front ++ opening).length = front.length + (symbolic.length - 4) := by
    rw [List.length_append]
    omega
  have patched := patch_append (front ++ opening) after sized
  rw [operand] at patched
  simp only [encode, List.append_assoc] at patched ⊢
  exact patched

/-- Filling the holes of instructions in order puts the bytes of the resolved ones in place of
theirs, and leaves the bytes in front alone. -/
theorem fill_holes (assembly : Assembly) (front : List UInt8)
    (symbolics : List (Instruction Label))
    (known : ∀ symbolic ∈ symbolics, ∀ label, symbolic.target? = some label →
      label.index < assembly.labels.size) :
    fill assembly.labels (Instruction.holes front.length symbolics)
        (front ++ Instruction.blankBytes symbolics).toArray =
      .ok ((Assembly.resolve assembly.place front.length symbolics).map fun instructions =>
        (front ++ instructions.flatMap Instruction.encode).toArray) := by
  induction symbolics generalizing front with
  | nil => rfl
  | cons symbolic later inductionHypothesis =>
    have blank : Instruction.blankBytes (symbolic :: later) =
        (symbolic.retarget 0).encode ++ Instruction.blankBytes later := rfl
    -- The later instructions are filled behind the bytes of this one, whatever its target is.
    have rest : ∀ target : UInt32, _ := fun target =>
      inductionHypothesis (front ++ (symbolic.retarget target).encode)
        fun other member => known other (List.mem_cons_of_mem _ member)
    simp only [List.length_append, Instruction.length_encode, Instruction.length_retarget,
      List.append_assoc] at rest
    rw [Instruction.holes, Assembly.resolve, Instruction.resolve_eq, blank]
    cases jumps : symbolic.target? with
    | none =>
      simp only [rest]
      cases Assembly.resolve assembly.place (front.length + symbolic.length) later <;> rfl
    | some label =>
      have created := known symbolic List.mem_cons_self label jumps
      simp only [fill, Assembly.place, Array.getElem?_eq_getElem created, Option.join_some]
      cases assembly.labels[label.index] with
      | none => rfl
      | some target =>
        simp only [patch_hole front _ jumps, rest]
        cases Assembly.resolve assembly.place (front.length + symbolic.length) later <;> rfl

end Assembler

namespace Assembly

/-- The assembler finishes to what the assembly does. -/
theorem finish_written (assembly : Assembly) (captures counters : Nat)
    (known : assembly.LabelsKnown) :
    assembly.written.finish captures counters = .ok (assembly.finish captures counters) := by
  have filled : Assembler.fill assembly.written.labels assembly.written.holes.toList
      assembly.written.bytes = _ :=
    Assembler.fill_holes assembly [] assembly.emitted.toList known
  rw [Assembler.finish, finish, filled, List.length_nil]
  cases resolve assembly.place 0 assembly.emitted.toList with
  | error error => rfl
  | ok instructions =>
    simp only [Except.map, List.nil_append]
    cases Program.ofBytes (instructions.flatMap Instruction.encode) captures counters <;> rfl

end Assembly

end RegexMachine
