import RegexMachine.Proofs.Simulation

/-!
# Ordered choice by frames

The machine implements leftmost-first choice. `Thread.evaluates_of_run` reads a verdict of the
reference off a run, and `Evaluates.run` makes a run from a verdict. Both leave the frames below
alone and resume the newest of them after a failure. `Program.hasOrderedChoice` states the
result for matching at a start.
-/

namespace RegexMachine

variable {α : Type} [CodeUnit α]

/-- Whether a program uses the stack for nothing but its choices. -/
def Program.IsStackFree (program : Program) : Prop :=
  ∀ entry ∈ program.entries, entry.instruction.isStackFree = true

section

variable {program : Program} {subject : Array α} {limit : StackLimit} {start : Nat}

/-- The thread that a failure above the frame of a choice resumes: it is sound, mirrors the
slots of the choice and has the frames below the choice. -/
theorem Memory.Sound.ofFailure_pushed {memory failed : Memory} {units position second : Nat}
    (sound : (memory.pushed program.frameSize position second).Sound program units limit start)
    (stack : failed.stack = (memory.pushed program.frameSize position second).stack) :
    Step.ofFailure program.frameSize failed =
        .running ⟨second, position, memory.restored program.frameSize position second⟩ ∧
      (⟨second, position, memory.restored program.frameSize position second⟩ : Thread).Sound
        program units limit start := by
  have sized : memory.state.size = program.frameSize := sound.state.sized
  obtain ⟨present, resumed⟩ := Memory.resumed_pushed sized program.two_lt_frameSize stack
  obtain ⟨again, same⟩ := Memory.resumed_pushed sized program.two_lt_frameSize
    (rfl : (memory.pushed program.frameSize position second).stack = _)
  constructor
  · rw [Step.ofFailure, if_pos present, resumed]
  · rw [← same]
    exact sound.resumed again

/-- The step of a sound thread of a program without other use of the stack is the step of an
effect that a move of the reference corresponds to. -/
theorem Thread.step_follows (stackFree : program.IsStackFree)
    (short : program.bytes.length ≤ maxSlot) (unitsFit : subject.size ≤ maxSlot)
    {thread : Thread} {slots : Slots} (sound : thread.Sound program subject.size limit start)
    (mirrors : Mirrors program slots thread.memory.state) :
    ∃ move result, program.move? subject thread.pc thread.position slots = some move ∧
      Follows program limit thread slots move result ∧
      thread.step program subject limit = .ofEffect program result := by
  obtain ⟨instruction, fetched⟩ := sound.fetched
  obtain ⟨move, moves, follows⟩ := execute_follows short unitsFit sound fetched
    (stackFree _ (Program.fetch_eq_some_iff.mp fetched)) mirrors
  exact ⟨move, _, moves, follows, step_of_fetch fetched⟩

/-- The step of a thread has the effect of its move. -/
theorem Thread.step_of_move (stackFree : program.IsStackFree)
    (short : program.bytes.length ≤ maxSlot) (unitsFit : subject.size ≤ maxSlot)
    {thread : Thread} {slots : Slots} {move : Move}
    (sound : thread.Sound program subject.size limit start)
    (mirrors : Mirrors program slots thread.memory.state)
    (moves : program.move? subject thread.pc thread.position slots = some move) :
    ∃ result, Follows program limit thread slots move result ∧
      thread.step program subject limit = .ofEffect program result := by
  obtain ⟨same, result, moved, follows, stepped⟩ :=
    step_follows stackFree short unitsFit sound mirrors
  obtain rfl := Option.some.inj (moves.symm.trans moved)
  exact ⟨result, follows, stepped⟩

/-- A run that ends was given up because the stack could not grow, or has matched as the reference
does, or the reference fails and the run went on with the newest frame. -/
theorem Thread.evaluates_of_run (stackFree : program.IsStackFree)
    (short : program.bytes.length ≤ maxSlot) (unitsFit : subject.size ≤ maxSlot)
    (limitFits : limit.frames ≤ maxSlot) {budget : Nat} {thread : Thread} {slots : Slots}
    {outcome : Outcome} {after : Memory}
    (sound : thread.Sound program subject.size limit start)
    (mirrors : Mirrors program slots thread.memory.state)
    (ends : thread.run program subject limit budget = some (outcome, after)) :
    (∃ error, outcome = .error error) ∨
    (∃ found, outcome = .matched found ∧
      Evaluates program subject thread.pc thread.position slots (.matched found)) ∨
    (Evaluates program subject thread.pc thread.position slots .failed ∧
      ∃ memory rest, rest < budget ∧ memory.stack = thread.memory.stack ∧
        (Step.ofFailure program.frameSize memory).run program subject limit rest =
          some (outcome, after)) := by
  -- The budget shrinks along both branches of a choice, unlike the length of the stack.
  induction budget using Nat.strongRecOn generalizing thread slots with
  | ind budget inductionHypothesis =>
    obtain ⟨move, result, moves, follows, stepped⟩ :=
      step_follows stackFree short unitsFit sound mirrors
    cases budget with
    | zero => contradiction
    | succ budget =>
    rw [run_succ, stepped] at ends
    cases follows with
    | advance pc position stack later =>
      have next := step_sound short unitsFit limitFits sound stepped
      rcases inductionHypothesis budget (Nat.lt_succ_self _) next later ends with
        refusal | ⟨found, rfl, evaluates⟩ | ⟨fails, memory, rest, fewer, same, goesOn⟩
      · exact .inl refusal
      · exact .inr (.inl ⟨found, rfl, .advance moves evaluates⟩)
      · exact .inr (.inr ⟨.advance moves fails, memory, rest, Nat.lt_succ_of_lt fewer,
          same.trans stack, goesOn⟩)
    | @fail memory stack =>
      exact .inr (.inr ⟨.fail moves, memory, budget, Nat.lt_succ_self _, stack, ends⟩)
    | succeed groups =>
      cases ends
      exact .inr (.inl ⟨_, rfl, groups ▸ .succeed moves⟩)
    | choose first second =>
      have next := step_sound short unitsFit limitFits sound stepped
      rcases inductionHypothesis budget (Nat.lt_succ_self _) next mirrors ends with
        refusal | ⟨found, rfl, chosen⟩ | ⟨refused, memory, rest, fewer, same, goesOn⟩
      · exact .inl refusal
      · exact .inr (.inl ⟨found, rfl, .first moves chosen⟩)
      · obtain ⟨resumes, resumed⟩ := next.memory.ofFailure_pushed same
        rw [resumes] at goesOn
        rcases inductionHypothesis rest (Nat.lt_succ_of_lt fewer) resumed
            (mirrors.frame sound.memory.state.sized _ _) goesOn with
          refusal | ⟨found, rfl, chosen⟩ | ⟨fails, memory, further, fewerAgain, below, ended⟩
        · exact .inl refusal
        · exact .inr (.inl ⟨found, rfl, .second moves refused chosen⟩)
        · exact .inr (.inr ⟨.second moves refused fails, memory, further, by omega, below,
            ended⟩)
    | refuse first second refused =>
      cases ends
      exact .inl ⟨_, rfl⟩

/-- How a thread runs that has a verdict, unless the stack can not grow: it ends with the match,
or it goes on with the newest frame. -/
def Thread.Carries (program : Program) (subject : Array α) (limit : StackLimit) (thread : Thread) :
    Verdict → Prop
  | .matched found => ∃ budget after,
      thread.run program subject limit budget = some (.matched found, after)
  | .failed => ∃ memory cost, memory.stack = thread.memory.stack ∧ ∀ budget,
      thread.run program subject limit (cost + budget) =
        (Step.ofFailure program.frameSize memory).run program subject limit budget

/-- How a thread runs whose stack can not grow: it ends with the error, which is a lack of memory
only if there is not enough for the frames that the ceiling allows. -/
def Thread.RunsOut (program : Program) (subject : Array α) (limit : StackLimit)
    (thread : Thread) : Prop :=
  ∃ error, (error = .outOfMemory → ¬ limit.Covers program.frameSize) ∧ ∃ budget after,
    thread.run program subject limit budget = some (.error error, after)

/-- A thread whose choice is refused a frame runs out. -/
theorem Thread.runsOut_of_refused {thread : Thread} {error : RunError}
    (sound : thread.Sound program subject.size limit start)
    (refused : thread.memory.refusal? program.frameSize limit = some error)
    (stepped : thread.step program subject limit = .ofEffect program (.error (.error error))) :
    thread.RunsOut program subject limit := by
  obtain ⟨frames, stacked, _, _⟩ := sound.memory.stack
  refine ⟨error, ?_, 1, .empty, ?_⟩
  · rintro rfl
    exact Memory.not_covers_of_outOfMemory stacked program.frameSize_pos refused
  · rw [run_succ, stepped]
    rfl

/-- A thread that leads to one that runs out does so too. -/
theorem Thread.runsOut_of_leads {thread next : Thread} {cost : Nat}
    (leads : ∀ budget, thread.run program subject limit (cost + budget) =
      next.run program subject limit budget)
    (runsOut : next.RunsOut program subject limit) : thread.RunsOut program subject limit := by
  obtain ⟨error, short, budget, after, ends⟩ := runsOut
  exact ⟨error, short, cost + budget, after, (leads budget).trans ends⟩

/-- A thread that leads to another comes to its verdict. For a failure the frames have to be the
same. -/
theorem Thread.carries_of_leads {thread next : Thread} {verdict : Verdict} {cost : Nat}
    (leads : ∀ budget, thread.run program subject limit (cost + budget) =
      next.run program subject limit budget)
    (stack : verdict = .failed → next.memory.stack = thread.memory.stack)
    (carries : next.Carries program subject limit verdict) :
    thread.Carries program subject limit verdict := by
  cases verdict with
  | matched found =>
    obtain ⟨budget, after, ends⟩ := carries
    exact ⟨cost + budget, after, (leads budget).trans ends⟩
  | failed =>
    obtain ⟨memory, further, same, goesOn⟩ := carries
    refine ⟨memory, cost + further, same.trans (stack rfl), ?_⟩
    intro budget
    rw [Nat.add_assoc, leads, goesOn]

/-- A run comes to the verdict of the reference, unless the stack can not grow. -/
theorem Evaluates.run (stackFree : program.IsStackFree)
    (short : program.bytes.length ≤ maxSlot) (unitsFit : subject.size ≤ maxSlot)
    (limitFits : limit.frames ≤ maxSlot) {pc position : Nat} {slots : Slots} {verdict : Verdict}
    {memory : Memory} (evaluates : Evaluates program subject pc position slots verdict)
    (sound : (⟨pc, position, memory⟩ : Thread).Sound program subject.size limit start)
    (mirrors : Mirrors program slots memory.state) :
    (⟨pc, position, memory⟩ : Thread).RunsOut program subject limit ∨
      (⟨pc, position, memory⟩ : Thread).Carries program subject limit verdict := by
  induction evaluates generalizing memory with
  | advance moves rest inductionHypothesis =>
    obtain ⟨result, follows, stepped⟩ :=
      Thread.step_of_move stackFree short unitsFit sound mirrors moves
    cases follows with
    | advance _ _ stack later =>
      have next := Thread.step_sound short unitsFit limitFits sound stepped
      have leads := Thread.run_of_step stepped
      exact (inductionHypothesis next later).imp (Thread.runsOut_of_leads leads)
        (Thread.carries_of_leads leads fun _ => stack)
  | fail moves =>
    obtain ⟨result, follows, stepped⟩ :=
      Thread.step_of_move stackFree short unitsFit sound mirrors moves
    cases follows with
    | @fail memory stack =>
      refine .inr ⟨memory, 1, stack, ?_⟩
      intro budget
      rw [Nat.add_comm, Thread.run_succ, stepped]
      rfl
  | succeed moves =>
    obtain ⟨result, follows, stepped⟩ :=
      Thread.step_of_move stackFree short unitsFit sound mirrors moves
    cases follows with
    | @succeed memory groups =>
      refine .inr ⟨1, memory, ?_⟩
      rw [Thread.run_succ, stepped, Step.ofEffect, groups]
      rfl
  | first moves chosen inductionHypothesis =>
    obtain ⟨result, follows, stepped⟩ :=
      Thread.step_of_move stackFree short unitsFit sound mirrors moves
    cases follows with
    | choose first second =>
      have next := Thread.step_sound short unitsFit limitFits sound stepped
      have leads := Thread.run_of_step stepped
      exact (inductionHypothesis next mirrors).imp (Thread.runsOut_of_leads leads)
        (Thread.carries_of_leads leads fun matched => Verdict.noConfusion matched)
    | refuse _ _ refused => exact .inl (Thread.runsOut_of_refused sound refused stepped)
  | @second pc position _ second _ _ moves refused chosen refusedHypothesis chosenHypothesis =>
    obtain ⟨result, follows, stepped⟩ :=
      Thread.step_of_move stackFree short unitsFit sound mirrors moves
    cases follows with
    | choose =>
      have next := Thread.step_sound short unitsFit limitFits sound stepped
      have leads := Thread.run_of_step stepped
      rcases refusedHypothesis next mirrors with runsOut | ⟨failed, cost, same, goesOn⟩
      · exact .inl (Thread.runsOut_of_leads leads runsOut)
      · obtain ⟨resumes, resumed⟩ := next.memory.ofFailure_pushed same
        have further : ∀ budget,
            (⟨pc, position, memory⟩ : Thread).run program subject limit (1 + cost + budget) =
              (⟨second, position, memory.restored program.frameSize position second⟩ :
                Thread).run program subject limit budget := by
          intro budget
          rw [Nat.add_assoc, leads, goesOn, resumes]
          rfl
        exact (chosenHypothesis resumed (mirrors.frame sound.memory.state.sized _ _)).imp
          (Thread.runsOut_of_leads further)
          (Thread.carries_of_leads further fun _ => rfl)
    | refuse _ _ refused => exact .inl (Thread.runsOut_of_refused sound refused stepped)

end

/-- The outcome of an attempt that comes to a verdict. -/
def Verdict.outcome : Verdict → Outcome
  | .matched found => .matched found
  | .failed => .unmatched

/-- Whether matching at a start is ordered choice: a match that is reported is the verdict of
the reference and stands in the caller's buffer, no match is reported only where the reference
fails, and a verdict of the reference is reported unless the stack overflows or, where the memory
is short of the frames that the ceiling allows, runs out of memory. -/
def Program.HasOrderedChoice (program : Program) (subject : Array α) (start : Nat) : Prop :=
  ∀ (matcher : Matcher) (buffer : Array Int), program.slotCount ≤ buffer.size →
    (∀ budget report, matcher.executeAt program subject buffer start budget = some report →
      (∀ found, report.outcome = .matched found →
        report.buffer.extract 0 program.slotCount = found ∧
          Evaluates program subject 0 start (.initial start) (.matched found)) ∧
      (report.outcome = .unmatched →
        Evaluates program subject 0 start (.initial start) .failed)) ∧
    ∀ verdict, Evaluates program subject 0 start (.initial start) verdict →
      ∃ budget report, matcher.executeAt program subject buffer start budget = some report ∧
        (report.outcome = verdict.outcome ∨ report.outcome = .error .stackOverflow ∨
          report.outcome = .error .outOfMemory ∧ ¬ matcher.limit.Covers program.frameSize)

namespace Program

variable {program : Program} {subject : Array α} {limit : StackLimit} {start : Nat}

/-- An attempt that matches or fails has the verdict of the reference. -/
theorem evaluates_of_attempt (stackFree : program.IsStackFree)
    (short : program.bytes.length ≤ maxSlot) (unitsFit : subject.size ≤ maxSlot)
    (limitFits : limit.frames ≤ maxSlot) (within : start ≤ subject.size) {budget : Nat}
    {memory after : Memory} {verdict : Verdict}
    (ends : attempt program subject limit budget start memory = some (verdict.outcome, after)) :
    Evaluates program subject 0 start (.initial start) verdict := by
  cases begins : Thread.initial program start memory with
  | error stop =>
    rw [attempt, begins] at ends
    cases verdict <;> cases stop <;> cases ends
  | ok first =>
    rw [attempt_of_initial begins] at ends
    have sound : first.Sound program subject.size limit start :=
      Thread.Reachable.sound short unitsFit limitFits within ⟨memory, first, begins, .refl⟩
    obtain ⟨_, _, rfl⟩ := Thread.eq_of_initial begins
    rcases Thread.evaluates_of_run stackFree short unitsFit limitFits sound
        (.initial program start) ends with
      ⟨_, refusal⟩ | ⟨found, same, evaluates⟩ | ⟨fails, left, rest, _, none, goesOn⟩
    · cases verdict <;> contradiction
    · cases verdict with
      | matched other =>
        obtain rfl := Outcome.matched.inj same
        exact evaluates
      | failed => contradiction
    · rw [Step.ofFailure_nil none] at goesOn
      cases verdict with
      | matched other => cases goesOn
      | failed => exact fails

/-- An attempt that can begin comes to the verdict of the reference, unless the stack can not
grow. -/
theorem attempt_of_evaluates (stackFree : program.IsStackFree)
    (short : program.bytes.length ≤ maxSlot) (unitsFit : subject.size ≤ maxSlot)
    (limitFits : limit.frames ≤ maxSlot) (within : start ≤ subject.size)
    (fits : program.frameFits = true) (memory : Memory) {verdict : Verdict}
    (evaluates : Evaluates program subject 0 start (.initial start) verdict) :
    ∃ budget outcome after,
      attempt program subject limit budget start memory = some (outcome, after) ∧
        (outcome = verdict.outcome ∨ outcome = .error .stackOverflow ∨
          outcome = .error .outOfMemory ∧ ¬ limit.Covers program.frameSize) := by
  have begins := Thread.initial_eq_ok fits (Nat.le_trans within unitsFit) memory
  have sound := Thread.Reachable.sound short unitsFit limitFits within
    ⟨memory, _, begins, .refl⟩
  rcases evaluates.run stackFree short unitsFit limitFits sound (.initial program start) with
    ⟨error, short, budget, after, ends⟩ | carries
  · refine ⟨budget, _, after, by rw [attempt_of_initial begins, ends], .inr ?_⟩
    cases error with
    | stackOverflow => exact .inl rfl
    | outOfMemory => exact .inr ⟨rfl, short rfl⟩
  · cases verdict with
    | matched found =>
      obtain ⟨budget, after, ends⟩ := carries
      exact ⟨budget, _, after, by rw [attempt_of_initial begins, ends]; rfl, .inl rfl⟩
    | failed =>
      obtain ⟨left, cost, none, goesOn⟩ := carries
      refine ⟨cost + 0, .unmatched, left, ?_, .inl rfl⟩
      rw [attempt_of_initial begins, goesOn, Step.ofFailure_nil none]
      rfl

end Program

/-- The ends of the groups of a match are as many as two for each group. -/
theorem Evaluates.size_ends {program : Program} {subject : Array α} {pc position : Nat}
    {slots : Slots} {found : Array Int}
    (evaluates : Evaluates program subject pc position slots (.matched found)) :
    found.size = program.slotCount := by
  generalize same : Verdict.matched found = verdict at evaluates
  induction evaluates with
  | advance _ _ inductionHypothesis => exact inductionHypothesis same
  | fail => contradiction
  | succeed =>
    obtain rfl := Verdict.matched.inj same
    simp [Slots.ends, Program.slotCount]
  | first _ _ inductionHypothesis => exact inductionHypothesis same
  | second _ _ _ _ inductionHypothesis => exact inductionHypothesis same

/-- Programs that use the stack for nothing but their choices match by ordered choice: the
match that is reported is the first one in the order of the choices, slot for slot. -/
theorem Program.hasOrderedChoice (program : Program) (subject : Array α) (start : Nat)
    (stackFree : program.IsStackFree) (fits : program.frameFits = true)
    (short : program.bytes.length ≤ maxSlot) (unitsFit : subject.size ≤ maxSlot)
    (within : start ≤ subject.size) : program.HasOrderedChoice subject start := by
  intro matcher buffer room
  constructor
  · intro budget report reported
    rw [matcher.executeAt_eq (refusal?_eq_none fits room unitsFit) within] at reported
    obtain ⟨⟨outcome, after⟩, ends, rfl⟩ := Option.map_eq_some_iff.mp reported
    constructor
    · intro found same
      simp only [Matcher.report] at same
      subst same
      have evaluates : Evaluates program subject 0 start (.initial start) (.matched found) :=
        evaluates_of_attempt stackFree short unitsFit matcher.limit_le within ends
      refine ⟨?_, evaluates⟩
      simp only [Matcher.report, Matcher.overwrite]
      rw [← evaluates.size_ends, Array.extract_append_left, Array.extract_size]
    · intro same
      simp only [Matcher.report] at same
      subst same
      exact evaluates_of_attempt stackFree short unitsFit matcher.limit_le within
        (ends : _ = some (Verdict.failed.outcome, after))
  · intro verdict evaluates
    obtain ⟨budget, outcome, after, ends, same⟩ := attempt_of_evaluates stackFree short unitsFit
      matcher.limit_le within fits matcher.memory evaluates
    refine ⟨budget, matcher.report buffer (outcome, after), ?_, same⟩
    rw [matcher.executeAt_eq (refusal?_eq_none fits room unitsFit) within, ends]
    rfl

/-- Two branches in order, of which the second one matches. -/
theorem Program.hasOrderedChoice_alternatives :
    ∃ program, ofBytes [16, 8, 0, 0, 0, 19, 97, 29, 19, 98, 29] 1 0 = .ok program ∧
      program.IsStackFree ∧ program.frameFits = true ∧ program.bytes.length ≤ maxSlot ∧
      program.HasOrderedChoice (#[98] : Array UInt8) 0 := by
  have valid : error? [16, 8, 0, 0, 0, 19, 97, 29, 19, 98, 29] 1 0 = none := by
    decide +kernel
  obtain ⟨program, accepted, bytes, captures, counters, entries⟩ := exists_ofBytes valid
  have stackFree : program.IsStackFree := by
    rw [IsStackFree, entries]
    decide +kernel
  have fits : program.frameFits = true := by
    rw [frameFits, frameSize, slotCount, captures, counters]
    decide
  have short : program.bytes.length ≤ maxSlot := by
    rw [bytes]
    decide
  exact ⟨program, accepted, stackFree, fits, short,
    hasOrderedChoice program #[98] 0 stackFree fits short (by decide) (by decide)⟩

/-- An attempt that begins with two choices runs out of memory if there is memory for one frame
and not for two. -/
theorem Program.attempt_eq_outOfMemory {program : Program} {subject : Array α}
    {limit : StackLimit} {start : Nat} {first second : UInt32} (fits : program.frameFits = true)
    (startFits : start ≤ maxSlot) (choice : program.fetch 0 = some (.pushBacktrack first))
    (again : program.fetch 5 = some (.pushBacktrack second)) (firstFits : first.toNat ≤ maxSlot)
    (frames : 1 < limit.frames) (one : program.frameSize ≤ limit.cells)
    (two : limit.cells < 2 * program.frameSize) (memory : Memory) :
    attempt program subject limit 2 start memory = some (.error .outOfMemory, .empty) := by
  obtain ⟨state, begins, sized⟩ : ∃ state,
      Thread.initial program start memory = .ok ⟨0, start, ⟨state, #[]⟩⟩ ∧
        state.size = program.frameSize :=
    ⟨_, Thread.initial_eq_ok fits startFits memory, by simp⟩
  have stacked : Stacked program.frameSize
      ((⟨state, #[]⟩ : Memory).pushed program.frameSize start first.toNat).stack _ :=
    Memory.stacked_pushed .empty sized start first.toNat
  have room : (⟨state, #[]⟩ : Memory).refusal? program.frameSize limit = none :=
    Memory.refusal?_of_frameless state (Nat.lt_of_succ_lt frames) one
  have short : ((⟨state, #[]⟩ : Memory).pushed program.frameSize start
      first.toNat).refusal? program.frameSize limit = some .outOfMemory := by
    rw [Memory.refusal?_eq_outOfMemory_iff, Memory.depth_eq stacked program.frameSize_pos,
      stacked.size_eq, List.length_singleton]
    exact ⟨frames, by omega⟩
  have pushes : (⟨0, start, ⟨state, #[]⟩⟩ : Thread).step program subject limit =
      .running ⟨5, start, (⟨state, #[]⟩ : Memory).pushed program.frameSize start first.toNat⟩ :=
    Thread.step_of_room choice room startFits firstFits
  have ends : (⟨5, start, (⟨state, #[]⟩ : Memory).pushed program.frameSize start
      first.toNat⟩ : Thread).step program subject limit = .ended (.error .outOfMemory) .empty :=
    Thread.step_of_refused again short
  rw [attempt_of_initial begins, Thread.run_succ, pushes, Step.run, Thread.run_succ, ends]
  rfl

/-- A program whose frames can be counted but not made has a verdict and no matching. -/
theorem Program.exists_not_hasOrderedChoice :
    ∃ program, ofBytes [29] 1 0x2000000000000000 = .ok program ∧
      program.IsStackFree ∧ program.frameCountable = true ∧ program.bytes.length ≤ maxSlot ∧
      ¬ program.HasOrderedChoice (#[] : Array UInt8) 0 := by
  have valid : error? [29] 1 0x2000000000000000 = none := by
    decide +kernel
  obtain ⟨program, accepted, bytes, captures, counters, entries⟩ := exists_ofBytes valid
  have stackFree : program.IsStackFree := by
    rw [IsStackFree, entries]
    decide +kernel
  have countable : program.frameCountable = true := by
    rw [frameCountable, frameSize, slotCount, captures, counters]
    decide
  have tooLarge : program.frameFits = false := by
    rw [frameFits, frameSize, slotCount, captures, counters]
    decide
  have short : program.bytes.length ≤ maxSlot := by
    rw [bytes]
    decide
  have fetched : program.fetch 0 = some .success := by
    rw [fetch_eq_some_iff, entries]
    decide +kernel
  have evaluates : Evaluates program (#[] : Array UInt8) 0 0 (.initial 0)
      (.matched ((Slots.initial 0).ends program.captures 0)) :=
    .succeed (by rw [move?, fetched])
  have room : program.slotCount ≤ (#[0, 0] : Array Int).size := by
    rw [slotCount, captures]
    decide
  have notRefused : program.refusal? (#[] : Array UInt8) (#[0, 0] : Array Int).size = none := by
    rw [refusal?, slotCount, captures]
    decide
  refine ⟨program, accepted, stackFree, countable, short, ?_⟩
  intro ordered
  obtain ⟨budget, report, reported, same⟩ :=
    (ordered Matcher.default #[0, 0] room).2 _ evaluates
  have breaksOff : report.outcome = .fault .frameTooLarge := by
    rw [Matcher.default.executeAt_eq notRefused (Nat.le_refl 0),
      attempt_of_not_frameFits tooLarge, Option.map_some] at reported
    obtain rfl := Option.some.inj reported
    rfl
  rw [breaksOff] at same
  rcases same with same | same | ⟨same, _⟩ <;> contradiction

/-- A program whose frames take half of what an array holds has a verdict, and runs out of memory
at its second frame also without a ceiling. -/
theorem Program.exists_evaluates_outOfMemory :
    ∃ program, ofBytes [16, 5, 0, 0, 0, 16, 10, 0, 0, 0, 29] 1 0xFFFFFFFFFFFFFFD = .ok program ∧
      program.IsStackFree ∧ program.frameFits = true ∧ program.bytes.length ≤ maxSlot ∧
      Evaluates program (#[] : Array UInt8) 0 0 (.initial 0) (.matched #[0, 0]) ∧
      Matcher.default.executeAt program (#[] : Array UInt8) #[0, 0] 0 2 =
        some ⟨.error .outOfMemory, #[0, 0], .default⟩ := by
  have valid : error? [16, 5, 0, 0, 0, 16, 10, 0, 0, 0, 29] 1 0xFFFFFFFFFFFFFFD = none := by
    decide +kernel
  obtain ⟨program, accepted, bytes, captures, counters, entries⟩ := exists_ofBytes valid
  have size : program.frameSize = 0x1000000000000000 := by
    simp only [frameSize, slotCount, captures, counters]
  have fits : program.frameFits = true := by
    rw [frameFits, size]
    decide
  have stackFree : program.IsStackFree := by
    rw [IsStackFree, entries]
    decide +kernel
  have short : program.bytes.length ≤ maxSlot := by
    rw [bytes]
    decide
  have room : program.slotCount ≤ (#[0, 0] : Array Int).size := by
    rw [slotCount, captures]
    decide
  obtain ⟨first, second, last⟩ : program.fetch 0 = some (.pushBacktrack 5) ∧
      program.fetch 5 = some (.pushBacktrack 10) ∧ program.fetch 10 = some .success := by
    simp only [fetch_eq_some_iff, entries]
    decide +kernel
  have evaluates : Evaluates program (#[] : Array UInt8) 0 0 (.initial 0)
      (.matched ((Slots.initial 0).ends program.captures 0)) :=
    .first (move?_pushBacktrack first) (.first (move?_pushBacktrack second)
      (.succeed (by rw [move?, last])))
  have groups : (Slots.initial 0).ends 1 0 = #[0, 0] := by
    decide +kernel
  rw [captures, groups] at evaluates
  have ends : attempt program (#[] : Array UInt8) Matcher.default.limit 2 0 .empty =
      some (.error .outOfMemory, .empty) :=
    attempt_eq_outOfMemory fits (Nat.zero_le maxSlot) first second (by decide) (by decide)
      (by rw [size]; decide) (by rw [size]; decide) .empty
  refine ⟨program, accepted, stackFree, fits, short, evaluates, ?_⟩
  rw [Matcher.default.executeAt_eq (refusal?_eq_none fits room (by decide)) (Nat.le_refl 0)]
  exact congrArg (Option.map (Matcher.default.report #[0, 0])) ends

/-- A program whose frames can be counted but not made has a verdict and no matching. One whose
frames take half of what an array holds has a verdict, and runs out of memory at its second frame
also without a ceiling. -/
theorem Program.not_hasOrderedChoice_frameTooLarge :
    (∃ program, ofBytes [29] 1 0x2000000000000000 = .ok program ∧
      program.IsStackFree ∧ program.frameCountable = true ∧ program.bytes.length ≤ maxSlot ∧
      ¬ program.HasOrderedChoice (#[] : Array UInt8) 0) ∧
    ∃ program, ofBytes [16, 5, 0, 0, 0, 16, 10, 0, 0, 0, 29] 1 0xFFFFFFFFFFFFFFD = .ok program ∧
      program.IsStackFree ∧ program.frameFits = true ∧ program.bytes.length ≤ maxSlot ∧
      Evaluates program (#[] : Array UInt8) 0 0 (.initial 0) (.matched #[0, 0]) ∧
      Matcher.default.executeAt program (#[] : Array UInt8) #[0, 0] 0 2 =
        some ⟨.error .outOfMemory, #[0, 0], .default⟩ :=
  ⟨exists_not_hasOrderedChoice, exists_evaluates_outOfMemory⟩

end RegexMachine
