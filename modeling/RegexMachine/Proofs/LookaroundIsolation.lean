import RegexMachine.Proofs.Lookaround

/-!
# Isolation of look-arounds

A look-around never disturbs the frames that are on the stack when it is entered.
`Lookaround.Visits` are the threads of a run that entered a block, up to the first one at its last
instruction or outside of it. Along a visit the guard stays on the frames of the entry
(`Lookaround.Stage`), so that the run can leave the block only at its last instruction or by
resuming the guard, both times with the stack of the entry (`IsLookaround.isolates`).
-/

namespace RegexMachine

variable {α : Type} [CodeUnit α]

namespace Lookaround

/-- The threads of a run from a thread on, with all of them but the last in a block before its
last instruction. -/
inductive Visits (program : Program) (subject : Array α) (limit : StackLimit) (block : Lookaround)
    (first : Thread) : Thread → Prop where
  | entry : Visits program subject limit block first first
  | step {thread next : Thread} (prior : Visits program subject limit block first thread)
      (contains : block.Contains thread.pc) (before : thread.pc ≠ block.leave)
      (continues : thread.step program subject limit = .running next) :
      Visits program subject limit block first next

/-- The memory of a thread that has entered a block: the depth of its stack is in the slot. -/
def entered (program : Program) (block : Lookaround) (first : Thread) : Memory :=
  ⟨first.updated program (.storeSp block.slot), first.memory.stack⟩

/-- The guard that a thread pushes when it has entered a block. -/
def guard (program : Program) (block : Lookaround) (first : Thread) : Array Int :=
  Memory.frame program.frameSize first.position block.alternative.toNat
    (block.entered program first).state

/-- The thread that resumes the guard: it goes on at the alternative from the position, the state
and the stack of the entry, with the slot of the block set. -/
def failed (program : Program) (block : Lookaround) (first : Thread) : Thread :=
  ⟨block.alternative.toNat, first.position,
    ⟨block.guard program first, first.memory.stack⟩⟩

/-- The step at the last instruction of a block, from a state. A look-ahead goes back to the
position of the entry, a negative one fails, and both have the stack of the entry. -/
def exit (program : Program) (block : Lookaround) (first : Thread) (state : Array Int) : Step :=
  match block.continuation with
  | some target => .running ⟨target.toNat, first.position, ⟨state, first.memory.stack⟩⟩
  | none => .ofFailure program.frameSize ⟨state, first.memory.stack⟩

/-- Where a thread of a visit stands. -/
inductive Stage (program : Program) (block : Lookaround) (first : Thread)
    (below : List (Array Int)) : Thread → Prop where
  | entering : Stage program block first below first
  | guarding : Stage program block first below
      ⟨block.enter + 5, first.position, block.entered program first⟩
  | inside {thread : Thread} {frames : List (Array Int)} (inside : block.Inside thread.pc)
      (stacked : Stacked program.frameSize thread.memory.stack frames)
      (guards : block.Guards program (block.guard program first) below frames) :
      Stage program block first below thread
  | outside : Stage program block first below (block.failed program first)

variable {program : Program} {subject : Array α} {limit : StackLimit} {start : Nat}
  {block : Lookaround}
  {first thread next : Thread} {below frames : List (Array Int)}

/-- The first step of a visit saves the depth. -/
theorem eq_of_entering (region : block.IsRegion program) (enters : first.pc = block.enter)
    (continues : first.step program subject limit = .running next) :
    next = ⟨block.enter + 5, first.position, block.entered program first⟩ := by
  have saves := region.saves
  rw [← enters] at saves
  rw [Thread.step_of_fetch saves] at continues
  cases executes : first.execute program subject limit (.storeSp block.slot) with
  | error stop =>
    rw [executes] at continues
    contradiction
  | ok effect =>
    rw [executes, Thread.eq_of_save executes] at continues
    obtain rfl := Step.running.inj continues
    rw [enters]
    rfl

/-- The second step of a visit pushes the guard. -/
theorem eq_of_guarding (region : block.IsRegion program)
    (continues : (⟨block.enter + 5, first.position, block.entered program first⟩ : Thread).step
      program subject limit = .running next) :
    next = ⟨block.enter + 10, first.position,
      (block.entered program first).pushed program.frameSize first.position
        block.alternative.toNat⟩ := by
  obtain ⟨instruction, fetched, performs⟩ := Thread.performs_of_running continues
  obtain rfl := Option.some.inj (region.pushes.symm.trans fetched)
  rcases performs with performs | ⟨memory, performs, _⟩
  · cases performs with
    | goOn keeps => contradiction
    | push => rfl
  · cases performs
    contradiction

/-- The guard resumes at the alternative, at the position of the entry. -/
theorem guard_cells (block : Lookaround) (sized : first.memory.state.size = program.frameSize) :
    ResumesAt program (block.guard program first) block.alternative.toNat ∧
      (block.guard program first)[1]? = some (first.position : Int) := by
  have entrySized : (block.entered program first).state.size = program.frameSize := by
    rw [entered, Thread.size_updated, sized]
  have large := program.two_lt_frameSize
  refine ⟨resumesAt_frame _ _ entrySized, ?_⟩
  rw [guard, Memory.getElem?_frame entrySized large, if_neg (by omega), if_pos rfl]

/-- An instruction of the body that fails leaves the guard on the stack. -/
theorem guards_of_fail (isBlock : IsLookaround program block) (settled : thread.Settled program)
    (inBody : block.InBody thread.pc)
    (stacked : Stacked program.frameSize thread.memory.stack frames) {guard : Array Int}
    (guards : block.Guards program guard below frames) {instruction : Instruction UInt32}
    {memory : Memory} (fetched : program.fetch thread.pc = some instruction)
    (performs : Thread.Performs program thread instruction (.fail memory)) :
    ∃ kept, Stacked program.frameSize memory.stack kept ∧
      block.Guards program guard below kept := by
  obtain ⟨_, others, again, _, prepared⟩ := settled
  obtain rfl := again.frames_unique program.frameSize_pos stacked rfl
  cases performs with
  | fail => exact ⟨others, stacked, guards⟩
  | abandon saved =>
    exact ⟨_, stacked.cut _, prepared.guards_cut isBlock inBody fetched rfl rfl saved guards⟩

/-- A step in the body stays inside the block above the guard, or resumes the guard. -/
theorem stage_of_inBody (isBlock : IsLookaround program block) (settled : thread.Settled program)
    (sized : first.memory.state.size = program.frameSize)
    (entry : Stacked program.frameSize first.memory.stack below)
    (inBody : block.InBody thread.pc)
    (stacked : Stacked program.frameSize thread.memory.stack frames)
    (guards : block.Guards program (block.guard program first) below frames)
    (continues : thread.step program subject limit = .running next) :
    Stage program block first below next := by
  have region := isBlock.region
  obtain ⟨instruction, fetched, performs | ⟨memory, performs, present, rfl⟩⟩ :=
    Thread.performs_of_running continues
  · obtain ⟨threadSized, others, again, _, prepared⟩ := settled
    obtain rfl := again.frames_unique program.frameSize_pos stacked rfl
    cases performs with
    | goOn _ leads => exact .inside (region.closed _ _ _ fetched inBody leads) stacked guards
    | push target =>
      exact .inside (region.closed _ _ _ fetched inBody (.next rfl))
        (Memory.stacked_pushed stacked threadSized _ _)
        (guards.above (resumesAt_frame _ _ threadSized)
          (region.closed _ _ _ fetched inBody (.target rfl)))
    | leave target saved =>
      exact .inside (region.closed _ _ _ fetched inBody (.target rfl)) (stacked.cut _)
        (prepared.guards_cut isBlock inBody fetched rfl rfl saved guards)
  · obtain ⟨kept, keptStacked, keptGuards⟩ :=
      guards_of_fail isBlock settled inBody stacked guards fetched performs
    obtain ⟨frame, older, stack, rfl, _, olderStacked, resumes⟩ :=
      Memory.resumed_of_stacked keptStacked program.frameSize_pos present
    rw [resumes]
    cases keptGuards with
    | base =>
      obtain ⟨atAlternative, atPosition⟩ := guard_cells block sized
      rw [atAlternative, atPosition, olderStacked.stack_unique entry]
      exact .outside
    | above rest atPc inside =>
      rw [atPc]
      exact .inside inside olderStacked rest

/-- Every thread of a visit is reached, and stands at a stage of the block. -/
theorem Visits.stage (isBlock : IsLookaround program block)
    (reachable : Thread.Reachable program subject limit start first)
    (enters : first.pc = block.enter)
    (entry : Stacked program.frameSize first.memory.stack below)
    (visits : block.Visits program subject limit first thread) :
    Thread.Reachable program subject limit start thread ∧
      Stage program block first below thread := by
  have region := isBlock.region
  have sized := reachable.settled.sized
  induction visits with
  | entry => exact ⟨reachable, .entering⟩
  | @step thread next prior contains before continues inductionHypothesis =>
    obtain ⟨⟨memory, initial, begins, steps⟩, stage⟩ := inductionHypothesis
    have settled := Thread.Reachable.settled ⟨memory, initial, begins, steps⟩
    refine ⟨⟨memory, initial, begins, steps.step continues⟩, ?_⟩
    cases stage with
    | entering =>
      obtain rfl := eq_of_entering region enters continues
      exact .guarding
    | guarding =>
      obtain rfl := eq_of_guarding region continues
      exact .inside ⟨Nat.le_refl _, region.ordered⟩
        (.push entry (by rw [Memory.size_frame, entered, Thread.size_updated, sized]))
        (.base (guard_cells block sized).1)
    | inside inside stacked guards =>
      have inBody : block.InBody thread.pc :=
        ⟨inside.1, Nat.lt_of_le_of_ne inside.2 before⟩
      exact stage_of_inBody isBlock settled sized entry inBody stacked guards continues
    | outside => exact absurd contains region.alternative

/-- The last instruction of a block makes its exit. -/
theorem exit_of_leave (region : block.IsRegion program)
    (sized : first.memory.state.size = program.frameSize)
    (entry : Stacked program.frameSize first.memory.stack below)
    (countable : below.length * program.frameSize < cellLimit)
    (leaves : thread.pc = block.leave)
    (stacked : Stacked program.frameSize thread.memory.stack frames)
    (guards : block.Guards program (block.guard program first) below frames)
    (saved : thread.memory.state[program.slotCount + block.slot.toNat]? =
      some (below.length : Int)) :
    thread.step program subject limit = block.exit program first thread.memory.state := by
  have cut : thread.memory.cut (below.length * program.frameSize) =
      ⟨thread.memory.state, first.memory.stack⟩ := by
    have remaining := stacked.cut below.length
    rw [guards.drop] at remaining
    rw [Memory.cut, remaining.stack_unique entry]
  have position : thread.memory.framePosition (below.length * program.frameSize) =
      .ok first.position := by
    obtain ⟨above, rfl⟩ := guards.exists_above
    rw [Memory.framePosition, stacked.getElem?_frame program.one_lt_frameSize,
      (guard_cells block sized).2]
    rfl
  have cuts := region.cuts
  rw [← leaves] at cuts
  rw [Thread.step_of_fetch cuts, leaving, exit]
  cases block.continuation with
  | some target =>
    simp only [Thread.execute, Thread.leaveLookaround, Memory.read_eq_ok_iff.mpr saved,
      Memory.frameStart_eq_ok countable, position, cut]
    rfl
  | none =>
    simp only [Thread.execute, Thread.failLookaround, Memory.read_eq_ok_iff.mpr saved,
      Memory.frameStart_eq_ok countable, cut]
    rfl

/-- No exit breaks an attempt off. -/
theorem exit_ne_fault (block : Lookaround) (first : Thread) (state : Array Int) (fault : Fault)
    (after : Memory) : block.exit program first state ≠ .ended (.fault fault) after := by
  rw [exit]
  split
  · simp
  · rw [Step.ofFailure]
    split <;> simp

/-- A thread of a visit does not decide the attempt before the last instruction of the block: the
body reports no match, and the guard is there to resume. -/
theorem Stage.exists_stop_of_ended (isBlock : IsLookaround program block)
    (enters : first.pc = block.enter) (settled : thread.Settled program)
    (stage : Stage program block first below thread) (contains : block.Contains thread.pc)
    (before : thread.pc ≠ block.leave) {outcome : Outcome} {after : Memory}
    (ends : thread.step program subject limit = .ended outcome after) :
    ∃ stop : Stop, outcome = stop.outcome := by
  have region := isBlock.region
  rcases Thread.performs_of_ended ends with
    stops | accepts | ⟨instruction, memory, fetched, performs, absent⟩
  · exact stops
  · cases stage with
    | entering =>
      rw [enters, region.saves] at accepts
      cases accepts
    | guarding =>
      rw [region.pushes] at accepts
      cases accepts
    | inside inside =>
      exact absurd accepts
        (region.undecided _ ⟨inside.1, Nat.lt_of_le_of_ne inside.2 before⟩)
    | outside => exact absurd contains region.alternative
  · cases stage with
    | entering =>
      rw [enters, region.saves] at fetched
      obtain rfl := Option.some.inj fetched
      cases performs
      contradiction
    | guarding =>
      rw [region.pushes] at fetched
      obtain rfl := Option.some.inj fetched
      cases performs
      contradiction
    | inside inside stacked guards =>
      obtain ⟨kept, keptStacked, keptGuards⟩ := guards_of_fail isBlock settled
        ⟨inside.1, Nat.lt_of_le_of_ne inside.2 before⟩ stacked guards fetched performs
      have present : memory.hasFrame program.frameSize = true := by
        cases keptGuards <;> exact Memory.hasFrame_of_stacked keptStacked
      rw [present] at absent
      contradiction
    | outside => exact absurd contains region.alternative

/-- At its last instruction a block has its guard on the frames of the entry, and the depth of
these in its slot. -/
theorem Stage.step_of_leave (subject : Array α) (limit : StackLimit)
    (isBlock : IsLookaround program block)
    (enters : first.pc = block.enter) (settled : thread.Settled program)
    (sized : first.memory.state.size = program.frameSize)
    (entry : Stacked program.frameSize first.memory.stack below)
    (countable : below.length * program.frameSize < cellLimit)
    (stage : Stage program block first below thread) (leaves : thread.pc = block.leave) :
    thread.step program subject limit = block.exit program first thread.memory.state := by
  have region := isBlock.region
  have ordered := region.ordered
  cases stage with
  | entering => omega
  | guarding =>
    simp only at leaves
    omega
  | inside inside stacked guards =>
    obtain ⟨_, others, again, _, prepared⟩ := settled
    obtain rfl := again.frames_unique program.frameSize_pos stacked rfl
    obtain ⟨guard, under, others, saved⟩ := prepared.guarded block isBlock inside
    obtain ⟨rfl, rfl⟩ := guards.unique region others
    exact exit_of_leave region sized entry countable leaves stacked guards saved
  | outside =>
    refine absurd ?_ region.alternative
    exact ⟨by have place : block.alternative.toNat = block.leave := leaves; omega,
      Nat.le_of_eq leaves⟩

/-- What it means that a block, entered with frames on the stack, leaves them alone, for a thread
of the visit. -/
structure Isolates (program : Program) (subject : Array α) (limit : StackLimit) (block : Lookaround)
    (first : Thread) (below : List (Array Int)) (thread : Thread) : Prop where
  /-- In the block, no frame of the entry is popped or changed. -/
  kept : block.Contains thread.pc →
    ∃ above, Stacked program.frameSize thread.memory.stack (above ++ below)
  /-- Before the last instruction the attempt neither matches nor runs out of frames. -/
  undecided : block.Contains thread.pc → thread.pc ≠ block.leave → ∀ outcome after,
    thread.step program subject limit = .ended outcome after →
      ∃ stop : Stop, outcome = stop.outcome
  /-- The last instruction does not break the attempt off. -/
  safe : thread.pc = block.leave → ∀ fault after,
    thread.step program subject limit ≠ .ended (.fault fault) after
  /-- A body that matched is left with the stack of the entry. -/
  exits : thread.pc = block.leave →
    thread.step program subject limit = block.exit program first thread.memory.state
  /-- A body that failed has resumed the guard, with the stack of the entry below it. -/
  outside : ¬ block.Contains thread.pc → thread = block.failed program first

end Lookaround

/-- A look-around that a reached thread enters leaves the frames on the stack alone, until the run
leaves it with the stack of the entry. -/
theorem IsLookaround.isolates (program : Program) (block : Lookaround)
    (isBlock : IsLookaround program block) (subject : Array α) (limit : StackLimit) (start : Nat)
    (first : Thread) (reachable : Thread.Reachable program subject limit start first)
    (enters : first.pc = block.enter) (below : List (Array Int))
    (entry : Stacked program.frameSize first.memory.stack below)
    (countable : below.length * program.frameSize < cellLimit) (thread : Thread)
    (visits : block.Visits program subject limit first thread) :
    block.Isolates program subject limit first below thread := by
  have sized := reachable.settled.sized
  obtain ⟨visited, stage⟩ := visits.stage isBlock reachable enters entry
  have exits := stage.step_of_leave subject limit isBlock enters visited.settled sized entry
    countable
  refine ⟨?_, ?_, ?_, exits, ?_⟩
  · intro contains
    cases stage with
    | entering => exact ⟨[], entry⟩
    | guarding => exact ⟨[], entry⟩
    | inside _ stacked guards =>
      obtain ⟨above, rfl⟩ := guards.exists_above
      exact ⟨above ++ [block.guard program first], by rw [← List.append_cons]; exact stacked⟩
    | outside => exact absurd contains isBlock.region.alternative
  · intro contains before outcome after
    exact stage.exists_stop_of_ended isBlock enters visited.settled contains before
  · intro leaves fault after
    rw [exits leaves]
    exact Lookaround.exit_ne_fault block first thread.memory.state fault after
  · intro outside
    have ordered := isBlock.region.ordered
    cases stage with
    | entering => exact absurd ⟨by omega, by omega⟩ outside
    | guarding => exact absurd ⟨by simp, by simp only; omega⟩ outside
    | inside inside => exact absurd inside.contains outside
    | outside => rfl

/-- A look-ahead for a unit that is not another one, entered with a frame on the stack: the guard
is pushed onto this frame. -/
theorem IsLookaround.isolates_nested :
    ∃ program below,
      Program.ofBytes [16, 43, 0, 0, 0, 0, 0, 0, 0, 0, 16, 43, 0, 0, 0, 0, 1, 0, 0, 0, 16, 32, 0, 0,
        0, 19, 97, 4, 1, 0, 0, 0, 19, 98, 3, 0, 0, 0, 0, 44, 0, 0, 0, 28, 29] 1 2 = .ok program ∧
      IsLookaround program ⟨5, 34, 0, 43, some 44⟩ ∧
      Stacked program.frameSize #[0, 0, -1, -1, 43] below ∧
      (⟨5, 34, 0, 43, some 44⟩ : Lookaround).Isolates program (#[98] : Array UInt8)
        Matcher.default.limit ⟨5, 0, ⟨#[0, -1, -1, -1, -1], #[0, 0, -1, -1, 43]⟩⟩ below
        ⟨15, 0, ⟨#[0, -1, 1, -1, -1], #[0, 0, -1, -1, 43, 0, 0, 1, -1, 43]⟩⟩ := by
  have runs : ((Program.ofBytes [16, 43, 0, 0, 0, 0, 0, 0, 0, 0, 16, 43, 0, 0, 0, 0, 1, 0, 0, 0,
      16, 32, 0, 0, 0, 19, 97, 4, 1, 0, 0, 0, 19, 98, 3, 0, 0, 0, 0, 44, 0, 0, 0, 28, 29] 1
      2).toOption.map fun program => decide
        (((⟨5, 34, 0, 43, some 44⟩ : Lookaround).IsRegion program ∧
          (⟨15, 27, 1, 32, none⟩ : Lookaround).IsRegion program ∧
          (∀ entry ∈ program.entries, (⟨5, 34, 0, 43, some 44⟩ : Lookaround).InBody entry.pc →
            entry.instruction.usesDepth = true →
              (⟨15, 27, 1, 32, none⟩ : Lookaround).Contains entry.pc) ∧
          ∀ entry ∈ program.entries, (⟨15, 27, 1, 32, none⟩ : Lookaround).InBody entry.pc →
            entry.instruction.usesDepth ≠ true) ∧
        (program.frameFits = true ∧ program.frameSize = 5) ∧
          (⟨0, 0, ⟨#[0, -1, -1, -1, -1], #[]⟩⟩ : Thread).step program (#[98] : Array UInt8)
            Matcher.default.limit =
              .running ⟨5, 0, ⟨#[0, -1, -1, -1, -1], #[0, 0, -1, -1, 43]⟩⟩ ∧
          (⟨5, 0, ⟨#[0, -1, -1, -1, -1], #[0, 0, -1, -1, 43]⟩⟩ : Thread).step program
            (#[98] : Array UInt8) Matcher.default.limit =
              .running ⟨10, 0, ⟨#[0, -1, 1, -1, -1], #[0, 0, -1, -1, 43]⟩⟩ ∧
          (⟨10, 0, ⟨#[0, -1, 1, -1, -1], #[0, 0, -1, -1, 43]⟩⟩ : Thread).step program
            (#[98] : Array UInt8) Matcher.default.limit =
              .running ⟨15, 0, ⟨#[0, -1, 1, -1, -1],
                #[0, 0, -1, -1, 43, 0, 0, 1, -1, 43]⟩⟩)) = some true := by
    decide +kernel
  obtain ⟨program, accepted, ⟨outerRegion, innerRegion, outerBelongs, innerBelongs⟩,
    ⟨fits, frameSize⟩, pushes, enters, guards⟩ := exists_ok_of_decide runs
  have inner : IsLookaround program ⟨15, 27, 1, 32, none⟩ := by
    refine .intro [] innerRegion (by simp) (by simp) (by simp) ?_
    intro pc instruction fetched inBody usesDepth
    exact absurd usesDepth (innerBelongs _ (Program.fetch_eq_some_iff.mp fetched) inBody)
  have outer : IsLookaround program ⟨5, 34, 0, 43, some 44⟩ := by
    refine .intro [⟨15, 27, 1, 32, none⟩] outerRegion (by simp [Lookaround.Within]) (by simp)
      (by simpa using inner) ?_
    intro pc instruction fetched inBody usesDepth
    exact ⟨_, List.mem_singleton_self _,
      outerBelongs _ (Program.fetch_eq_some_iff.mp fetched) inBody usesDepth⟩
  have begins := Thread.initial_eq_ok fits (Nat.zero_le maxSlot) .empty
  rw [frameSize] at begins
  have reachable : Thread.Reachable program (#[98] : Array UInt8) Matcher.default.limit 0
      ⟨5, 0, ⟨#[0, -1, -1, -1, -1], #[0, 0, -1, -1, 43]⟩⟩ :=
    ⟨.empty, _, begins, .step .refl pushes⟩
  obtain ⟨below, entry, _⟩ := reachable.settled.stack
  have countable : below.length * program.frameSize < cellLimit := by
    rw [← entry.size_eq]
    decide
  exact ⟨program, below, accepted, outer, entry,
    isolates program ⟨5, 34, 0, 43, some 44⟩ outer #[98] Matcher.default.limit 0 _ reachable rfl
      below entry countable _
      (.step (.step .entry (by decide) (by decide) enters) (by decide) (by decide) guards)⟩

end RegexMachine
