import RegexMachine.Proofs.Inversion

/-!
# Invariants of the state

What a run keeps of its state it keeps of the copies in its frames too, since failures bring these
back. `StateInvariant` says what has to be shown of a property of a state at a position: that the
updates of instructions keep it, that frames keep it, and that the position may move backwards
where a look-around is left. `StateInvariant.steps` concludes that the state and all frames have
the property along every run.
-/

namespace RegexMachine

variable {α : Type} [CodeUnit α]

/-- A property of a state at a position that every instruction keeps. -/
structure StateInvariant (program : Program) (holds : Nat → Array Int → Prop) : Prop where
  /-- An instruction that goes on at a position keeps it. -/
  updated : ∀ {thread : Thread} {instruction : Instruction UInt32} {position : Nat},
    program.fetch thread.pc = some instruction →
    thread.memory.state.size = program.frameSize → thread.position ≤ position →
    holds thread.position thread.memory.state → holds position (thread.updated program instruction)
  /-- A frame keeps it at the position that is saved in the frame. -/
  framed : ∀ {position resume : Nat} {state : Array Int}, state.size = program.frameSize →
    holds position state → holds position (Memory.frame program.frameSize position resume state)
  /-- Where a look-around that matched is left, the position does not matter. -/
  moved : ∀ {pc before after : Nat} {slot target : UInt32} {state : Array Int},
    program.fetch pc = some (.assertionSuccess slot target) → holds before state →
    holds after state

/-- The state of a thread has a property at its position, and so has every frame of its stack at
the position that is saved in the frame. -/
structure Thread.Keeps (program : Program) (holds : Nat → Array Int → Prop) (thread : Thread) :
    Prop where
  state : holds thread.position thread.memory.state
  stack : ∃ frames, Stacked program.frameSize thread.memory.stack frames ∧
    ∀ frame ∈ frames, ∃ position : Nat, frame[1]? = some (position : Int) ∧ holds position frame

namespace StateInvariant

variable {program : Program} {subject : Array α} {limit : StackLimit} {start : Nat}
  {holds : Nat → Array Int → Prop}

/-- A step keeps the property. -/
theorem step (invariant : StateInvariant program holds) {thread next : Thread}
    (sized : thread.memory.state.size = program.frameSize)
    (keeps : thread.Keeps program holds)
    (continues : thread.step program subject limit = .running next) :
    next.Keeps program holds := by
  obtain ⟨frames, stacked, framesHold⟩ := keeps.stack
  have large := program.two_lt_frameSize
  obtain ⟨instruction, fetched, performs | ⟨memory, performs, present, rfl⟩⟩ :=
    Thread.performs_of_running continues
  · cases performs with
    | goOn _ _ onward =>
      exact ⟨invariant.updated fetched sized onward keeps.state, frames, stacked, framesHold⟩
    | push target =>
      refine ⟨keeps.state, _, Memory.stacked_pushed stacked sized _ _, ?_⟩
      intro frame member
      rcases List.mem_cons.mp member with rfl | older
      · refine ⟨thread.position, ?_, invariant.framed sized keeps.state⟩
        rw [Memory.getElem?_frame sized large, if_neg (by omega), if_pos rfl]
      · exact framesHold frame older
    | leave =>
      exact ⟨invariant.moved fetched keeps.state, _, stacked.cut _,
        fun frame member => framesHold frame (List.mem_of_mem_drop member)⟩
  · -- Failing instructions keep the frames or cut some of them off.
    have remaining : ∃ kept, Stacked program.frameSize memory.stack kept ∧
        ∀ frame ∈ kept, frame ∈ frames := by
      cases performs with
      | fail => exact ⟨frames, stacked, fun _ member => member⟩
      | abandon => exact ⟨_, stacked.cut _, fun _ member => List.mem_of_mem_drop member⟩
    obtain ⟨kept, keptStacked, older⟩ := remaining
    obtain ⟨frame, rest, stack, rfl, _, below, resumes⟩ :=
      Memory.resumed_of_stacked keptStacked program.frameSize_pos present
    obtain ⟨position, saved, frameHolds⟩ := framesHold frame (older frame List.mem_cons_self)
    rw [resumes, saved]
    exact ⟨frameHolds, rest, below,
      fun other member => framesHold other (older other (List.mem_cons_of_mem _ member))⟩

/-- Every thread that an attempt reaches has the property if the thread has it that the attempt
begins with. -/
theorem reachable (invariant : StateInvariant program holds) {thread : Thread}
    (initially : holds start
      ((Array.replicate program.frameSize unset).setIfInBounds 0 (start : Int)))
    (reachable : Thread.Reachable program subject limit start thread) :
    thread.memory.state.size = program.frameSize ∧ thread.Keeps program holds := by
  obtain ⟨memory, first, begins, steps⟩ := reachable
  obtain ⟨_, _, rfl⟩ := Thread.eq_of_initial begins
  have fresh : ((Array.replicate program.frameSize unset).setIfInBounds 0
      (start : Int)).size = program.frameSize := by simp
  refine ⟨steps.sized fresh, ?_⟩
  induction steps with
  | refl => exact ⟨initially, [], .empty, by simp⟩
  | step prior continues inductionHypothesis =>
    exact invariant.step (prior.sized fresh) inductionHypothesis continues

end StateInvariant

end RegexMachine
