import RegexMachine.Proofs.AlikeThreads
import RegexMachine.Proofs.Safety

/-!
# Abandoned choices

A frame that a choice pushes stays as it is, and so do the frames below it, for as long as the
stack is higher than it was at the choice (`Thread.StepsAbove.suffix`), however often frames above
it are pushed, resumed and cut off. It leaves the stack when it is resumed (`Thread.Pops`) or when
an instruction that leaves a look-around cuts it off, and in no other way (`Thread.pops_or_leaves`).

A thread that resumes it goes on from the state, the position and the stack of the choice, but for
two cells of the state that the frame overloads: the end of group 0, which holds the position, and
the last cell, which holds the resume offset. No instruction of a program that does not ask for the
text of group 0 looks at these two, so that the run goes on as if the first branch had never been
tried (`Thread.Pops.restores`).
-/

namespace RegexMachine

variable {α : Type} [CodeUnit α]

namespace Thread

/-- Steps from a thread to another one, all of them with more frames on the stack than a depth. -/
inductive StepsAbove (program : Program) (subject : Array α) (limit : StackLimit) (depth : Nat)
    (first : Thread) :
    Thread → Prop where
  | refl (above : depth < first.memory.depth program.frameSize) :
      StepsAbove program subject limit depth first first
  | step {thread next : Thread} (prior : StepsAbove program subject limit depth first thread)
      (continues : thread.step program subject limit = .running next)
      (above : depth < next.memory.depth program.frameSize) :
      StepsAbove program subject limit depth first next

/-- A thread that resumes the frame at a depth: it fails with this frame as the newest one. -/
structure Pops (program : Program) (subject : Array α) (limit : StackLimit) (depth : Nat)
    (thread resumed : Thread) : Prop where
  continues : thread.step program subject limit = .running resumed
  fails : ∃ instruction memory, program.fetch thread.pc = some instruction ∧
    thread.execute program subject limit instruction = .ok (.fail memory) ∧
    memory.depth program.frameSize = depth + 1

variable {program : Program} {subject : Array α} {limit : StackLimit} {depth start : Nat}
  {first thread next last resumed : Thread} {frames kept : List (Array Int)}

/-- Steps above a depth are steps. -/
theorem StepsAbove.steps (above : StepsAbove program subject limit depth first thread) :
    Steps program subject limit first thread := by
  induction above with
  | refl => exact .refl
  | step _ continues _ inductionHypothesis => exact .step inductionHypothesis continues

/-- A failing instruction keeps the frames, or cuts off the newest ones. -/
theorem Performs.suffix_of_fail {instruction : Instruction UInt32} {memory : Memory}
    (performs : Performs program thread instruction (.fail memory))
    (stacked : Stacked program.frameSize thread.memory.stack frames) :
    ∃ left, Stacked program.frameSize memory.stack left ∧ left <:+ frames := by
  cases performs with
  | fail => exact ⟨frames, stacked, List.suffix_refl _⟩
  | abandon => exact ⟨_, stacked.cut _, List.drop_suffix _ _⟩

/-- A step puts a frame on the stack, or takes the newest frames off it, or leaves the stack as it
is. The other frames stay as they are. -/
theorem suffix_of_running (sized : thread.memory.state.size = program.frameSize)
    (stacked : Stacked program.frameSize thread.memory.stack frames)
    (continues : thread.step program subject limit = .running next) :
    ∃ left, Stacked program.frameSize next.memory.stack left ∧
      (left <:+ frames ∨ frames <:+ left) := by
  obtain ⟨instruction, _, performs | ⟨memory, performs, present, rfl⟩⟩ :=
    performs_of_running continues
  · cases performs with
    | goOn => exact ⟨frames, stacked, .inl (List.suffix_refl _)⟩
    | push =>
      exact ⟨_, Memory.stacked_pushed stacked sized _ _, .inr (List.suffix_cons _ _)⟩
    | leave => exact ⟨_, stacked.cut _, .inl (List.drop_suffix _ _)⟩
  · obtain ⟨left, leftStacked, suffix⟩ := performs.suffix_of_fail stacked
    obtain ⟨frame, older, stack, rfl, _, below, resumes⟩ :=
      Memory.resumed_of_stacked leftStacked program.frameSize_pos present
    rw [resumes]
    exact ⟨older, below, .inl ((List.suffix_cons _ _).trans suffix)⟩

/-- The oldest frames of a stack stay as they are as long as the stack is not cut below them. -/
theorem StepsAbove.suffix (above : StepsAbove program subject limit depth first thread)
    (sized : first.memory.state.size = program.frameSize) (length : kept.length = depth + 1)
    (stacked : Stacked program.frameSize first.memory.stack frames) (suffix : kept <:+ frames) :
    ∃ left, Stacked program.frameSize thread.memory.stack left ∧ kept <:+ left := by
  induction above with
  | refl => exact ⟨frames, stacked, suffix⟩
  | @step thread next prior continues above inductionHypothesis =>
    obtain ⟨before, beforeStacked, keptBefore⟩ := inductionHypothesis
    obtain ⟨left, leftStacked, shrinks | grows⟩ :=
      suffix_of_running (prior.steps.sized sized) beforeStacked continues
    · rw [Memory.depth_eq leftStacked program.frameSize_pos] at above
      exact ⟨left, leftStacked, List.suffix_of_suffix_length_le keptBefore shrinks (by omega)⟩
    · exact ⟨left, leftStacked, keptBefore.trans grows⟩

/-- A step that takes the frame at a depth off the stack resumes this frame, or it is that of an
instruction that leaves a look-around. -/
theorem pops_or_leaves (sized : thread.memory.state.size = program.frameSize)
    (stacked : Stacked program.frameSize thread.memory.stack frames)
    (continues : thread.step program subject limit = .running next)
    (above : depth < thread.memory.depth program.frameSize)
    (below : next.memory.depth program.frameSize ≤ depth) :
    Pops program subject limit depth thread next ∨
      ∃ instruction, program.fetch thread.pc = some instruction ∧
        instruction.leavesLookaround = true := by
  have positive := program.frameSize_pos
  rw [Memory.depth_eq stacked positive] at above
  obtain ⟨instruction, fetched, executes | ⟨memory, executes, present, rfl⟩⟩ :=
    executes_of_running continues
  · have performs := performs_of_execute executes
    cases performs with
    | goOn =>
      have height : Memory.depth program.frameSize ⟨_, thread.memory.stack⟩ = frames.length :=
        Memory.depth_eq stacked positive
      exact absurd (Nat.le_trans (Nat.le_of_eq height.symm) below) (Nat.not_le.mpr above)
    | push target =>
      have height : (thread.memory.pushed program.frameSize thread.position target.toNat).depth
          program.frameSize = frames.length + 1 :=
        Memory.depth_eq (Memory.stacked_pushed stacked sized _ _) positive
      exact absurd (Nat.le_trans (Nat.le_of_eq height.symm) below) (by omega)
    | leave => exact .inr ⟨_, fetched, rfl⟩
  · have performs := performs_of_execute executes
    cases performs with
    | fail =>
      obtain ⟨frame, older, stack, rfl, _, olderStacked, resumes⟩ :=
        Memory.resumed_of_stacked stacked positive present
      have height : Memory.depth program.frameSize ⟨frame, stack⟩ = older.length :=
        Memory.depth_eq olderStacked positive
      rw [resumes] at below
      refine .inl ⟨continues, instruction, _, fetched, executes, ?_⟩
      rw [Memory.depth_eq stacked positive, List.length_cons]
      rw [List.length_cons] at above
      have lower : older.length ≤ depth := Nat.le_trans (Nat.le_of_eq height.symm) below
      omega
    | abandon => exact .inr ⟨_, fetched, rfl⟩

/-- A thread that resumes the frame of a choice has the state of the frame, and the position and
the stack of the choice. -/
theorem Pops.resumed_eq {memory : Memory} {position resume : Nat}
    (pops : Pops program subject limit (memory.depth program.frameSize) last resumed)
    (sized : memory.state.size = program.frameSize)
    (stacked : Stacked program.frameSize memory.stack frames)
    (pushed : first.memory = memory.pushed program.frameSize position resume)
    (above : StepsAbove program subject limit (memory.depth program.frameSize) first last) :
    resumed = ⟨resume, position, memory.restored program.frameSize position resume⟩ := by
  have positive := program.frameSize_pos
  have pushedStacked := Memory.stacked_pushed stacked sized position resume
  obtain ⟨left, leftStacked, suffix⟩ := above.suffix (by rw [pushed]; exact sized)
    (by rw [Memory.depth_eq stacked positive, List.length_cons])
    (pushed ▸ pushedStacked) (List.suffix_refl _)
  obtain ⟨instruction, failed, fetched, executes, depth⟩ := pops.fails
  obtain ⟨remaining, remainingStacked, among⟩ :=
    (performs_of_execute executes).suffix_of_fail leftStacked
  -- The frames that are left are as many as the frame of the choice and those below it.
  rw [Memory.depth_eq remainingStacked positive, Memory.depth_eq stacked positive] at depth
  obtain rfl := (List.suffix_of_suffix_length_le suffix among
    (by rw [List.length_cons, depth])).eq_of_length (by rw [List.length_cons, depth])
  obtain ⟨present, resumes⟩ := Memory.resumed_pushed sized program.two_lt_frameSize
    (remainingStacked.stack_unique pushedStacked)
  have steps := pops.continues
  rw [step_of_fetch fetched, executes, Step.ofEffect, Step.ofFailure, if_pos present,
    resumes] at steps
  exact (Step.running.inj steps).symm

end Thread

/-- Offsets that are the same and have an instruction. -/
def Program.Stays (program : Program) (pc otherPc : Nat) : Prop :=
  otherPc = pc ∧ ∃ instruction, program.fetch pc = some instruction

section

variable {program : Program} {subject : Array α} {limit : StackLimit} {start : Nat}

/-- A program has the groups and settings of itself. -/
theorem Program.moves_self (short : program.bytes.length ≤ maxSlot) :
    program.Moves program program.Stays where
  captures := rfl
  counters := rfl
  ignoreCase := rfl
  fits := by
    rintro pc _ ⟨rfl, instruction, fetched⟩
    have inBytes := Program.lt_length_of_fetch fetched
    omega

/-- An instruction does the same as itself. It does not make the end of group 0 count if it does
not ask for the text of this group. -/
theorem Program.paired_self
    (silent : ∀ entry ∈ program.entries, ∀ ignoreCase,
      entry.instruction ≠ .backReference 0 ignoreCase)
    (pc otherPc : Nat) (stays : program.Stays pc otherPc) :
    program.Paired program program.Stays False pc otherPc := by
  obtain ⟨rfl, instruction, fetched⟩ := stays
  refine ⟨fetched, fetched, .refl instruction ?_, ?_, ?_⟩
  · exact fun target jumps => ⟨rfl, Program.exists_fetch_target fetched jumps⟩
  · exact fun continues => ⟨rfl, Program.exists_fetch_next fetched continues⟩
  · exact fun ignoreCase asks =>
      silent _ (Program.fetch_eq_some_iff.mp fetched) ignoreCase asks

/-- A frame is like the state that it copies. -/
theorem CellsAlike.framed {size position resume : Nat} {state : Array Int}
    (sized : state.size = size) (large : 2 < size) :
    CellsAlike size False (Memory.frame size position resume state) state where
  sized := by rw [Memory.size_frame, sized]
  otherSized := sized
  same := by
    intro cell within counts
    rw [Memory.getElem?_frame sized large, if_neg (Nat.ne_of_lt within), if_neg counts]

/-- A frame of an attempt is like itself. -/
theorem FrameSound.alike {units : Nat} {frame : Array Int}
    (sound : FrameSound program units start frame) :
    FrameAlike program.frameSize program.Stays frame frame where
  cells := .refl sound.cells.sized
  resume := by
    obtain ⟨resume, last, fetched⟩ := sound.resume
    exact ⟨resume, resume, ⟨rfl, fetched⟩, last, last⟩

end

/-- What it means that a thread that resumes the frame of a choice is not touched by what the first
branch of the choice did. -/
structure Thread.Restores (program : Program) (subject : Array α) (limit : StackLimit)
    (target : UInt32)
    (thread resumed : Thread) : Prop where
  pc : resumed.pc = target.toNat
  position : resumed.position = thread.position
  stack : resumed.memory.stack = thread.memory.stack
  sized : resumed.memory.state.size = thread.memory.state.size
  /-- The state is that of the choice, the end of group 0 and the last cell apart. -/
  cells : ∀ cell, cell ≠ 1 → cell ≠ program.frameSize - 1 →
    resumed.memory.state[cell]? = thread.memory.state[cell]?
  /-- These two cells are not missed: the run ends as it does from the state of the choice, or goes
  on for ever as it does from there. -/
  outcome : ∀ budget, (resumed.run program subject limit budget).map Prod.fst =
    ((⟨target.toNat, thread.position, thread.memory⟩ : Thread).run program subject limit
      budget).map Prod.fst

/-- An abandoned choice leaves no trace: in a program that does not ask for the text of group 0, a
run that resumes the frame of a choice goes on as if it had taken the second branch at once. -/
theorem Thread.Pops.restores (matcher : Matcher) (program : Program) (subject : Array α)
    (start : Nat) (short : program.bytes.length ≤ maxSlot) (unitsFit : subject.size ≤ maxSlot)
    (within : start ≤ subject.size)
    (silent : ∀ entry ∈ program.entries, ∀ ignoreCase,
      entry.instruction ≠ .backReference 0 ignoreCase)
    (thread pushed last resumed : Thread) (target : UInt32)
    (reachable : Thread.Reachable program subject matcher.limit start thread)
    (fetched : program.fetch thread.pc = some (.pushBacktrack target))
    (pushes : thread.step program subject matcher.limit = .running pushed)
    (above : Thread.StepsAbove program subject matcher.limit
      (thread.memory.depth program.frameSize) pushed last)
    (pops : Thread.Pops program subject matcher.limit (thread.memory.depth program.frameSize) last
      resumed) :
    Thread.Restores program subject matcher.limit target thread resumed := by
  have sound := reachable.sound short unitsFit matcher.limit_le within
  have sized := sound.memory.state.sized
  have large := program.two_lt_frameSize
  obtain ⟨frames, stacked, _, framesSound⟩ := sound.memory.stack
  have memory : pushed.memory =
      thread.memory.pushed program.frameSize thread.position target.toNat := by
    obtain ⟨instruction, same, performs | ⟨_, performs, _⟩⟩ := performs_of_running pushes
    · obtain rfl := Option.some.inj (fetched.symm.trans same)
      cases performs with
      | goOn keeps => contradiction
      | push => rfl
    · obtain rfl := Option.some.inj (fetched.symm.trans same)
      cases performs
      contradiction
  obtain rfl := pops.resumed_eq sized stacked memory above
  have framed : CellsAlike program.frameSize False
      (Memory.frame program.frameSize thread.position target.toNat thread.memory.state)
      thread.memory.state :=
    .framed sized large
  have alike : Thread.Alike program.frameSize program.Stays False
      ⟨target.toNat, thread.position,
        thread.memory.restored program.frameSize thread.position target.toNat⟩
      ⟨target.toNat, thread.position, thread.memory⟩ :=
    .mk ⟨rfl, Program.exists_fetch_target fetched rfl⟩
      ⟨framed, frames, frames, stacked, stacked,
        List.forall₂_same.mpr fun frame member => (framesSound frame member).alike⟩
  refine ⟨rfl, rfl, rfl, ?_, ?_, fun budget => ?_⟩
  · exact Memory.size_frame _ _ _ _
  · intro cell notEnd notLast
    exact (Memory.getElem?_frame sized large cell).trans
      (by rw [if_neg notLast, if_neg notEnd])
  · exact (Thread.run_alike (Program.moves_self short) (Program.paired_self silent) alike
      budget).symm

/-- A first branch that opens a group and consumes a unit before it fails. -/
theorem Thread.Pops.restores_group :
    ∃ program, Program.ofBytes [16, 13, 0, 0, 0, 11, 1, 0, 0, 0, 19, 97, 28, 29] 2 0 =
        .ok program ∧
      Thread.Restores program (#[97] : Array UInt8) Matcher.default.limit 13
        ⟨0, 0, ⟨#[0, -1, -1, -1, -1], #[]⟩⟩ ⟨13, 0, ⟨#[0, 0, -1, -1, 13], #[]⟩⟩ := by
  have runs : ((Program.ofBytes [16, 13, 0, 0, 0, 11, 1, 0, 0, 0, 19, 97, 28, 29] 2
      0).toOption.map fun program => decide (
        (program.frameFits = true ∧ program.frameSize = 5 ∧ program.bytes.length = 14) ∧
        (program.entries.all fun entry => match entry.instruction with
          | .backReference .. => false
          | _ => true) = true ∧
        (program.fetch 0 = some (.pushBacktrack 13) ∧ program.fetch 12 = some .failure) ∧
        (⟨0, 0, ⟨#[0, -1, -1, -1, -1], #[]⟩⟩ : Thread).step program (#[97] : Array UInt8)
            Matcher.default.limit =
          .running ⟨5, 0, ⟨#[0, -1, -1, -1, -1], #[0, 0, -1, -1, 13]⟩⟩ ∧
        (⟨5, 0, ⟨#[0, -1, -1, -1, -1], #[0, 0, -1, -1, 13]⟩⟩ : Thread).step program
            (#[97] : Array UInt8) Matcher.default.limit =
          .running ⟨10, 0, ⟨#[0, -1, 0, -1, -1], #[0, 0, -1, -1, 13]⟩⟩ ∧
        (⟨10, 0, ⟨#[0, -1, 0, -1, -1], #[0, 0, -1, -1, 13]⟩⟩ : Thread).step program
            (#[97] : Array UInt8) Matcher.default.limit =
          .running ⟨12, 1, ⟨#[0, -1, 0, -1, -1], #[0, 0, -1, -1, 13]⟩⟩ ∧
        (⟨12, 1, ⟨#[0, -1, 0, -1, -1], #[0, 0, -1, -1, 13]⟩⟩ : Thread).step program
            (#[97] : Array UInt8) Matcher.default.limit =
          .running ⟨13, 0, ⟨#[0, 0, -1, -1, 13], #[]⟩⟩)) = some true := by
    decide +kernel
  obtain ⟨program, accepted, ⟨fits, frameSize, length⟩, noReference, ⟨choice, failure⟩, pushes,
    opens, consumes, fails⟩ := exists_ok_of_decide runs
  have short : program.bytes.length ≤ maxSlot := by
    rw [length]
    decide
  have begins := Thread.initial_eq_ok fits (Nat.zero_le maxSlot) .empty
  rw [frameSize] at begins
  have silent : ∀ entry ∈ program.entries, ∀ ignoreCase,
      entry.instruction ≠ .backReference 0 ignoreCase := by
    intro entry member ignoreCase asks
    have refers := List.all_eq_true.mp noReference entry member
    rw [asks] at refers
    contradiction
  have above : ∀ state, 0 < Memory.depth program.frameSize ⟨state, #[0, 0, -1, -1, 13]⟩ := by
    intro state
    rw [frameSize]
    exact (by decide : 0 < 5 / 5)
  have height : Memory.depth program.frameSize ⟨#[0, -1, -1, -1, -1], #[]⟩ = 0 := by
    rw [frameSize]
    decide
  refine ⟨program, accepted, restores Matcher.default program #[97] 0 short (by decide) (by decide)
    silent _ _ _ _ 13 ⟨.empty, _, begins, .refl⟩ choice pushes ?_ ⟨fails, ?_⟩⟩
  · rw [height]
    exact .step (.step (.refl (above _)) opens (above _)) consumes (above _)
  · refine ⟨.failure, _, failure, rfl, ?_⟩
    rw [height, frameSize]
    decide

end RegexMachine
