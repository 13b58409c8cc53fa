import RegexMachine.Proofs.Runs

/-!
# What an instruction can do

`Thread.Performs` lists the effects of instructions, one constructor for each kind: to go on
with some cells of the state changed, to fail, to push a frame, to cut the stack and to report a
match. `Thread.performs_of_execute` says that an instruction has no other effect, whatever the
thread, so that invariants of runs are proved by cases on this list.
-/

namespace RegexMachine

variable {α : Type} [CodeUnit α]

namespace Instruction

/-- The offsets that an instruction at an offset passes control to: the one behind it, and its
target. -/
inductive Leads (pc : Nat) (instruction : Instruction UInt32) : Nat → Prop where
  | next (continues : instruction.fallsThrough = true) :
      Leads pc instruction (pc + instruction.length)
  | target {target : UInt32} (jumps : instruction.target? = some target) :
      Leads pc instruction target.toNat

/-- Control passes to the offset behind an instruction or to its target, and nowhere else. -/
theorem Leads.eq {pc next : Nat} {instruction : Instruction UInt32}
    (leads : instruction.Leads pc next) :
    (instruction.fallsThrough = true ∧ next = pc + instruction.length) ∨
      ∃ target, instruction.target? = some target ∧ next = target.toNat := by
  cases leads with
  | next continues => exact .inl ⟨continues, rfl⟩
  | target jumps => exact .inr ⟨_, jumps, rfl⟩

/-- The offsets that an instruction at an offset passes control to, as a list. -/
def successors (pc : Nat) (instruction : Instruction UInt32) : List Nat :=
  (if instruction.fallsThrough then [pc + instruction.length] else []) ++
    (instruction.target?.map UInt32.toNat).toList

/-- The successors of an instruction are where it leads to. -/
theorem mem_successors_iff {pc next : Nat} {instruction : Instruction UInt32} :
    next ∈ instruction.successors pc ↔ instruction.Leads pc next := by
  simp only [successors, List.mem_append, Option.mem_toList, Option.map_eq_some_iff]
  constructor
  · rintro (member | ⟨target, jumps, rfl⟩)
    · split at member
      · rename_i continues
        obtain rfl := List.mem_singleton.mp member
        exact .next continues
      · contradiction
    · exact .target jumps
  · intro leads
    rcases leads.eq with ⟨continues, rfl⟩ | ⟨target, jumps, rfl⟩
    · rw [if_pos continues]
      exact .inl (List.mem_singleton_self _)
    · exact .inr ⟨target, jumps, rfl⟩

variable {Target : Type}

/-- The scratch slot that an instruction writes. -/
def writtenSlot? : Instruction Target → Option UInt32
  | .storeSp slot => some slot
  | .storePosition slot => some slot
  | .counterZero slot => some slot
  | .counterNext slot _ _ => some slot
  | _ => none

/-- Whether an instruction puts a frame on the stack or cuts it. -/
def movesStack : Instruction Target → Bool
  | .pushBacktrack _ | .assertionSuccess .. | .assertionFailure _ => true
  | _ => false

/-- Whether an instruction can fail with the stack as it is. -/
def canFail : Instruction Target → Bool
  | .positionTest _ | .assertion _ | .backReference .. | .checkByte _ | .checkUnit _
  | .checkAny _ | .checkRange .. | .checkLiteral _ | .failure => true
  | _ => false

end Instruction

namespace Thread

/-- The state of a thread after an instruction that does not fail. -/
def updated (program : Program) (thread : Thread) : Instruction UInt32 → Array Int
  | .success => thread.memory.state.setIfInBounds 1 (thread.position : Int)
  | .storeSp slot =>
    thread.memory.state.setIfInBounds (program.slotCount + slot.toNat)
      (thread.memory.depth program.frameSize : Int)
  | .storePosition slot =>
    thread.memory.state.setIfInBounds (program.slotCount + slot.toNat) (thread.position : Int)
  | .startCapture group =>
    (thread.memory.state.setIfInBounds (2 * group.toNat) (thread.position : Int)).setIfInBounds
      (2 * group.toNat + 1) unset
  | .endCapture group =>
    thread.memory.state.setIfInBounds (2 * group.toNat + 1) (thread.position : Int)
  | .clearCaptures first stop =>
    Memory.unsetCells thread.memory.state (2 * first.toNat) (2 * stop.toNat - 2 * first.toNat)
  | .counterZero slot => thread.memory.state.setIfInBounds (program.slotCount + slot.toNat) 0
  | .counterNext slot _ _ =>
    let cell := program.slotCount + slot.toNat
    thread.memory.state.setIfInBounds cell
      (min (thread.memory.state[cell]?.getD unset + 1) (maxSlot : Int))
  | _ => thread.memory.state

/-- What an instruction can do to a thread. -/
inductive Performs (program : Program) (thread : Thread) : Instruction UInt32 → Effect → Prop where
  /-- The thread goes on, and never backwards in the subject. -/
  | goOn {instruction : Instruction UInt32} {next position : Nat}
      (keeps : instruction.movesStack = false) (leads : instruction.Leads thread.pc next)
      (onward : thread.position ≤ position) :
      Performs program thread instruction
        (.proceed ⟨next, position, ⟨thread.updated program instruction, thread.memory.stack⟩⟩)
  /-- The thread fails. -/
  | fail {instruction : Instruction UInt32} (tests : instruction.canFail = true) :
      Performs program thread instruction (.fail thread.memory)
  /-- A frame is pushed. -/
  | push (target : UInt32) :
      Performs program thread (.pushBacktrack target)
        (.proceed ⟨thread.pc + 5, thread.position,
          thread.memory.pushed program.frameSize thread.position target.toNat⟩)
  /-- The stack is cut, and the thread goes on at the position in the first frame cut off. -/
  | leave {slot : UInt32} (target : UInt32) {depth position : Nat}
      (saved : thread.memory.state[program.slotCount + slot.toNat]? = some (depth : Int))
      (found : thread.memory.framePosition (depth * program.frameSize) = .ok position) :
      Performs program thread (.assertionSuccess slot target)
        (.proceed ⟨target.toNat, position, thread.memory.cut (depth * program.frameSize)⟩)
  /-- The stack is cut, and the thread fails. -/
  | abandon {slot : UInt32} {depth : Nat}
      (saved : thread.memory.state[program.slotCount + slot.toNat]? = some (depth : Int)) :
      Performs program thread (.assertionFailure slot)
        (.fail (thread.memory.cut (depth * program.frameSize)))
  /-- A match is reported. -/
  | accept :
      Performs program thread .success
        (.accept ⟨thread.updated program .success, thread.memory.stack⟩)

/-- An instruction that goes on passes control on. -/
theorem Performs.leads {program : Program} {thread next : Thread}
    {instruction : Instruction UInt32}
    (performs : Performs program thread instruction (.proceed next)) :
    instruction.Leads thread.pc next.pc := by
  cases performs with
  | goOn _ leads => exact leads
  | push => exact .next rfl
  | leave => exact .target rfl

/-- Every update keeps the number of cells. -/
@[simp] theorem size_updated (program : Program) (thread : Thread)
    (instruction : Instruction UInt32) :
    (thread.updated program instruction).size = thread.memory.state.size := by
  cases instruction <;> simp [updated]

/-- An instruction writes no scratch slot but its own. -/
theorem getElem?_updated_scratch {program : Program} {thread : Thread}
    {instruction : Instruction UInt32} (fetched : program.fetch thread.pc = some instruction)
    {slot : UInt32} (other : instruction.writtenSlot? ≠ some slot) :
    (thread.updated program instruction)[program.slotCount + slot.toNat]? =
      thread.memory.state[program.slotCount + slot.toNat]? := by
  have apart : ∀ written : UInt32, some written ≠ some slot →
      program.slotCount + written.toNat ≠ program.slotCount + slot.toNat := by
    intro written differs same
    exact differs (congrArg some (UInt32.toNat_inj.mp (Nat.add_left_cancel same)))
  have captured := program.one_le_captures
  cases instruction with
  | storeSp | storePosition | counterZero | counterNext =>
    exact Array.getElem?_setIfInBounds_ne (apart _ other)
  | startCapture group =>
    have inGroups := Program.groupEnd_lt_slotCount (Program.group_lt_captures (.inl fetched))
    rw [updated, Array.getElem?_setIfInBounds_ne (by omega),
      Array.getElem?_setIfInBounds_ne (by omega)]
  | endCapture group =>
    have inGroups := Program.groupEnd_lt_slotCount (Program.group_lt_captures (.inr fetched))
    rw [updated, Array.getElem?_setIfInBounds_ne (by omega)]
  | clearCaptures first stop =>
    obtain ⟨ordered, inGroups⟩ := Program.cleared_le_captures fetched
    rw [updated, Memory.getElem?_unsetCells, if_neg]
    unfold Program.slotCount
    omega
  | success =>
    rw [updated, Array.getElem?_setIfInBounds_ne]
    unfold Program.slotCount
    omega
  | _ => rfl

end Thread

/-- A frame has the scratch slots of the state that it copies. -/
theorem Memory.getElem?_frame_scratch {program : Program} {position resume : Nat}
    {state : Array Int} (sized : state.size = program.frameSize) {slot : UInt32}
    (inScratch : slot.toNat < program.counters) :
    (frame program.frameSize position resume state)[program.slotCount + slot.toNat]? =
      state[program.slotCount + slot.toNat]? := by
  have captured := program.one_le_captures
  rw [getElem?_frame sized program.two_lt_frameSize, if_neg, if_neg]
  · unfold Program.slotCount
    omega
  · unfold Program.frameSize
    omega

/-- The ends of the groups that a thread reports where its program matches. -/
def Program.reported (program : Program) (thread : Thread) : Array Int :=
  (thread.memory.state.setIfInBounds 1 (thread.position : Int)).extract 0 program.slotCount

/-- A report has both ends of every group. -/
theorem Program.size_reported {program : Program} {thread : Thread}
    (sized : thread.memory.state.size = program.frameSize) :
    (program.reported thread).size = program.slotCount := by
  have enough := program.slotCount_lt_frameSize
  rw [reported, Array.size_extract, Array.size_setIfInBounds, sized]
  omega

/-- Only a number that a slot holds has a cell. -/
theorem eq_of_toCell {number : Nat} {content : Int} (fits : toCell number = .ok content) :
    content = number := by
  rw [toCell] at fits
  split at fits
  · exact (Except.ok.inj fits).symm
  · contradiction

namespace Memory

variable {memory after : Memory}

/-- A write that is not refused sets the cell. -/
theorem eq_of_write {cell : Nat} {content : Int}
    (written : memory.write cell content = .ok after) :
    after = ⟨memory.state.setIfInBounds cell content, memory.stack⟩ := by
  rw [write] at written
  split at written
  · exact (Except.ok.inj written).symm
  · contradiction

/-- Cells that are cleared are unset. -/
theorem eq_of_clear {first stop : Nat} (cleared : memory.clear first stop = .ok after) :
    after = ⟨unsetCells memory.state first (stop - first), memory.stack⟩ := by
  rw [clear] at cleared
  split at cleared
  · exact (Except.ok.inj cleared).symm
  · contradiction

/-- A push that is not refused puts a frame on the stack. -/
theorem eq_of_push {size : Nat} {limit : StackLimit} {position resume : Nat} (positive : 0 < size)
    (pushes : memory.push size limit position resume = .ok after) :
    after = memory.pushed size position resume := by
  cases room : memory.refusal? size limit with
  | some error =>
    rw [push_eq_error room] at pushes
    contradiction
  | none =>
    by_cases fits : position ≤ maxSlot ∧ resume ≤ maxSlot
    · rw [push_eq_ok room positive fits.1 fits.2] at pushes
      exact (Except.ok.inj pushes).symm
    · rw [push_eq_fault room (by omega)] at pushes
      contradiction

/-- A depth whose frame has a first cell is a number. -/
theorem eq_of_frameStart {size start : Nat} {depth : Int}
    (found : frameStart size depth = .ok start) :
    ∃ number : Nat, depth = number ∧ start = number * size := by
  rw [frameStart] at found
  split at found
  · contradiction
  · split at found
    · rename_i positive _
      exact ⟨depth.toNat, by omega, (Except.ok.inj found).symm⟩
    · contradiction

end Memory

namespace Thread

variable {program : Program} {subject : Array α} {limit : StackLimit} {thread : Thread}
  {instruction : Instruction UInt32} {effect : Effect} {next : Nat}

/-- An instruction that consumes units under a test goes on or fails. -/
theorem performs_consumeIf {passed : Bool} {units : Nat}
    (keeps : instruction.movesStack = false) (leads : instruction.Leads thread.pc next)
    (tests : instruction.canFail = true)
    (same : thread.updated program instruction = thread.memory.state) :
    Performs program thread instruction
      (.consumeIf passed next thread.position units thread.memory) := by
  cases passed with
  | true =>
    have goesOn : Performs program thread instruction
        (.proceed ⟨next, thread.position + units,
          ⟨thread.updated program instruction, thread.memory.stack⟩⟩) :=
      .goOn keeps leads (Nat.le_add_right _ _)
    rw [same] at goesOn
    exact goesOn
  | false => exact .fail tests

/-- Saving a number sets a cell. -/
theorem eq_of_save {number cell : Nat} (saves : thread.save number cell next = .ok effect) :
    effect = .proceed ⟨next, thread.position,
      ⟨thread.memory.state.setIfInBounds cell (number : Int), thread.memory.stack⟩⟩ := by
  rw [save] at saves
  split at saves
  · contradiction
  · rename_i content fits
    obtain rfl := eq_of_toCell fits
    cases written : thread.memory.write cell number with
    | error stop =>
      rw [written] at saves
      contradiction
    | ok memory =>
      rw [written, Memory.eq_of_write written] at saves
      exact (Except.ok.inj saves).symm

/-- Opening a group sets its start and unsets its end. -/
theorem eq_of_openGroup {group : Nat} (opens : thread.openGroup group next = .ok effect) :
    effect = .proceed ⟨next, thread.position,
      ⟨(thread.memory.state.setIfInBounds (2 * group) (thread.position : Int)).setIfInBounds
        (2 * group + 1) unset, thread.memory.stack⟩⟩ := by
  rw [openGroup] at opens
  split at opens
  · contradiction
  · rename_i content fits
    obtain rfl := eq_of_toCell fits
    split at opens
    · contradiction
    · rename_i memory written
      obtain rfl := Memory.eq_of_write written
      cases again : Memory.write _ (2 * group + 1) unset with
      | error stop =>
        rw [again] at opens
        contradiction
      | ok last =>
        rw [again, Memory.eq_of_write again] at opens
        exact (Except.ok.inj opens).symm

/-- Counting adds one to a cell, up to the largest number of a slot. -/
theorem eq_of_count {cell max target : Nat}
    (counts : thread.count cell max target next = .ok effect) :
    ∃ pc, (pc = target ∨ pc = next) ∧
      effect = .proceed ⟨pc, thread.position,
        ⟨thread.memory.state.setIfInBounds cell
          (min (thread.memory.state[cell]?.getD unset + 1) (maxSlot : Int)),
          thread.memory.stack⟩⟩ := by
  rw [count] at counts
  split at counts
  · contradiction
  · rename_i before reads
    rw [Memory.read_eq_ok_iff] at reads
    simp only at counts
    cases written : thread.memory.write cell (min (before + 1) (maxSlot : Int)) with
    | error stop =>
      rw [written] at counts
      contradiction
    | ok memory =>
      rw [written, Memory.eq_of_write written] at counts
      refine ⟨if min (before + 1) (maxSlot : Int) < max then target else next, ?_, ?_⟩
      · split
        · exact .inl rfl
        · exact .inr rfl
      · rw [reads, Option.getD_some]
        exact (Except.ok.inj counts).symm

/-- An instruction has no other effect than those listed. -/
theorem performs_of_execute
    (executes : thread.execute program subject limit instruction = .ok effect) :
    Performs program thread instruction effect := by
  cases instruction with
  | storeSp | storePosition | endCapture =>
    obtain rfl := eq_of_save executes
    exact .goOn rfl (.next rfl) (Nat.le_refl _)
  | counterZero slot =>
    have saves : thread.save 0 (program.slotCount + slot.toNat) _ = .ok effect := executes
    obtain rfl := eq_of_save saves
    exact .goOn rfl (.next rfl) (Nat.le_refl _)
  | startCapture group =>
    obtain rfl := eq_of_openGroup executes
    exact .goOn rfl (.next rfl) (Nat.le_refl _)
  | counterNext slot max target =>
    obtain ⟨pc, rfl | rfl, rfl⟩ := eq_of_count executes
    · exact .goOn rfl (.target rfl) (Nat.le_refl _)
    · exact .goOn rfl (.next rfl) (Nat.le_refl _)
  | clearCaptures first stop =>
    simp only [execute] at executes
    cases cleared : thread.memory.clear (2 * first.toNat) (2 * stop.toNat) with
    | error reason =>
      rw [cleared] at executes
      contradiction
    | ok memory =>
      rw [cleared, Memory.eq_of_clear cleared] at executes
      obtain rfl := Except.ok.inj executes
      exact .goOn rfl (.next rfl) (Nat.le_refl _)
  | positionTest slot =>
    simp only [execute, requireMoved] at executes
    split at executes
    · contradiction
    · split at executes
      · contradiction
      · obtain rfl := Except.ok.inj executes
        exact performs_consumeIf rfl (.next rfl) rfl rfl
  | assertion anchor =>
    simp only [execute, test] at executes
    split at executes
    · contradiction
    · obtain rfl := Except.ok.inj executes
      exact performs_consumeIf rfl (.next rfl) rfl rfl
  | backReference group ignoreCase =>
    simp only [execute, backReference] at executes
    split at executes
    · contradiction
    · obtain rfl := Except.ok.inj executes
      exact .goOn rfl (.next rfl) (Nat.le_refl _)
    · split at executes
      · contradiction
      · split at executes
        · obtain rfl := Except.ok.inj executes
          exact .fail rfl
        · split at executes
          · contradiction
          · obtain rfl := Except.ok.inj executes
            exact performs_consumeIf rfl (.next rfl) rfl rfl
  | checkByte | checkUnit | checkAny | checkRange =>
    obtain rfl := Except.ok.inj executes
    exact performs_consumeIf rfl (.next rfl) rfl rfl
  | checkLiteral units =>
    simp only [execute, literal] at executes
    split at executes
    · contradiction
    · obtain rfl := Except.ok.inj executes
      exact performs_consumeIf rfl (.next rfl) rfl rfl
  | pushBacktrack target =>
    simp only [execute] at executes
    cases pushes : thread.memory.push program.frameSize limit thread.position target.toNat with
    | error stop =>
      rw [pushes] at executes
      contradiction
    | ok memory =>
      rw [pushes, Memory.eq_of_push program.frameSize_pos pushes] at executes
      obtain rfl := Except.ok.inj executes
      exact .push target
  | assertionSuccess slot target =>
    simp only [execute, leaveLookaround] at executes
    split at executes
    · contradiction
    · rename_i depth reads
      split at executes
      · contradiction
      · rename_i start counted
        split at executes
        · contradiction
        · rename_i position found
          obtain ⟨number, rfl, rfl⟩ := Memory.eq_of_frameStart counted
          obtain rfl := Except.ok.inj executes
          exact .leave target (Memory.read_eq_ok_iff.mp reads) found
  | assertionFailure slot =>
    simp only [execute, failLookaround] at executes
    split at executes
    · contradiction
    · rename_i depth reads
      split at executes
      · contradiction
      · rename_i start counted
        obtain ⟨number, rfl, rfl⟩ := Memory.eq_of_frameStart counted
        obtain rfl := Except.ok.inj executes
        exact .abandon (Memory.read_eq_ok_iff.mp reads)
  | jump target =>
    obtain rfl := Except.ok.inj executes
    exact .goOn rfl (.target rfl) (Nat.le_refl _)
  | failure =>
    obtain rfl := Except.ok.inj executes
    exact .fail rfl
  | success =>
    simp only [execute, accept] at executes
    split at executes
    · contradiction
    · rename_i content fits
      obtain rfl := eq_of_toCell fits
      split at executes
      · contradiction
      · rename_i memory written
        obtain rfl := Memory.eq_of_write written
        obtain rfl := Except.ok.inj executes
        exact .accept

/-- A step runs on where its instruction goes on, or where it fails and there is a frame to
resume. -/
theorem executes_of_running {next : Thread}
    (continues : thread.step program subject limit = .running next) :
    ∃ instruction, program.fetch thread.pc = some instruction ∧
      (thread.execute program subject limit instruction = .ok (.proceed next) ∨
        ∃ memory, thread.execute program subject limit instruction = .ok (.fail memory) ∧
          memory.hasFrame program.frameSize = true ∧
          next = memory.resumed program.frameSize) := by
  rw [step] at continues
  split at continues
  · contradiction
  · rename_i instruction fetched
    refine ⟨instruction, fetched, ?_⟩
    cases executes : thread.execute program subject limit instruction with
    | error stop =>
      rw [executes] at continues
      contradiction
    | ok effect =>
      rw [executes] at continues
      cases effect with
      | proceed other =>
        obtain rfl := Step.running.inj continues
        exact .inl rfl
      | fail memory =>
        rw [Step.ofEffect, Step.ofFailure] at continues
        split at continues
        · rename_i present
          exact .inr ⟨memory, rfl, present, (Step.running.inj continues).symm⟩
        · contradiction
      | accept memory => contradiction

/-- A step that runs on goes on after its instruction, or resumes the newest frame after a
failure. -/
theorem performs_of_running {next : Thread}
    (continues : thread.step program subject limit = .running next) :
    ∃ instruction, program.fetch thread.pc = some instruction ∧
      (Performs program thread instruction (.proceed next) ∨
        ∃ memory, Performs program thread instruction (.fail memory) ∧
          memory.hasFrame program.frameSize = true ∧
          next = memory.resumed program.frameSize) := by
  obtain ⟨instruction, fetched, executes | ⟨memory, executes, resumes⟩⟩ :=
    executes_of_running continues
  · exact ⟨instruction, fetched, .inl (performs_of_execute executes)⟩
  · exact ⟨instruction, fetched, .inr ⟨memory, performs_of_execute executes, resumes⟩⟩

/-- A step that ends the attempt stops early, reports a match or fails without frames. -/
theorem performs_of_ended {outcome : Outcome} {after : Memory}
    (ends : thread.step program subject limit = .ended outcome after) :
    (∃ stop : Stop, outcome = stop.outcome) ∨
      program.fetch thread.pc = some .success ∨
      ∃ instruction memory, program.fetch thread.pc = some instruction ∧
        Performs program thread instruction (.fail memory) ∧
        memory.hasFrame program.frameSize = false := by
  rw [step] at ends
  split at ends
  · exact .inl ⟨.fault .noSuchInstruction, (Step.ended.inj ends).1.symm⟩
  · rename_i instruction fetched
    cases executes : thread.execute program subject limit instruction with
    | error stop =>
      rw [executes] at ends
      exact .inl ⟨stop, (Step.ended.inj ends).1.symm⟩
    | ok effect =>
      rw [executes] at ends
      have performs := performs_of_execute executes
      cases effect with
      | proceed next => contradiction
      | accept memory =>
        cases performs
        exact .inr (.inl fetched)
      | fail memory =>
        rw [Step.ofEffect, Step.ofFailure] at ends
        split at ends
        · contradiction
        · rename_i absent
          exact .inr (.inr ⟨instruction, memory, fetched, performs, Bool.eq_false_iff.mpr absent⟩)

/-- A step that reports a match executes the instruction for it. -/
theorem matched_of_ended {slots : Array Int} {after : Memory}
    (ends : thread.step program subject limit = .ended (.matched slots) after) :
    program.fetch thread.pc = some .success ∧ slots = program.reported thread := by
  rw [step] at ends
  split at ends
  · cases ends
  · rename_i instruction fetched
    cases executes : thread.execute program subject limit instruction with
    | error stop =>
      rw [executes] at ends
      cases stop <;> cases ends
    | ok effect =>
      rw [executes] at ends
      cases performs_of_execute executes with
      | goOn | push | leave => cases ends
      | fail | abandon =>
        rw [Step.ofEffect, Step.ofFailure] at ends
        split at ends <;> cases ends
      | accept =>
        obtain ⟨same, _⟩ := Step.ended.inj ends
        exact ⟨fetched, (Outcome.matched.inj same).symm⟩

/-- The state of every thread that steps lead to has the cells of a frame. -/
theorem Steps.sized {first thread : Thread} (steps : Steps program subject limit first thread)
    (sized : first.memory.state.size = program.frameSize) :
    thread.memory.state.size = program.frameSize := by
  induction steps with
  | refl => exact sized
  | @step thread next prior continues inductionHypothesis =>
    obtain ⟨instruction, _, performs | ⟨memory, _, present, rfl⟩⟩ := performs_of_running continues
    · cases performs with
      | goOn => exact (size_updated _ _ _).trans inductionHypothesis
      | push => exact inductionHypothesis
      | leave => exact inductionHypothesis
    · have enough : program.frameSize ≤ memory.stack.size := of_decide_eq_true present
      simp only [Memory.resumed, Array.size_extract]
      omega

end Thread

end RegexMachine
