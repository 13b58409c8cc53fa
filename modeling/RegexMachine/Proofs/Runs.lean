import RegexMachine.Matcher
import RegexMachine.Proofs.ControlFlow
import RegexMachine.Proofs.FrameStack

/-!
# Runs

The relation behind the runner: `Thread.Steps` are the threads that steps lead to, and
`Thread.Reachable` those of an attempt. A run that ends does so at a thread that its steps lead
to (`Thread.exists_last_of_run`), and a larger budget changes nothing (`Thread.run_of_le`).
-/

namespace RegexMachine

variable {α : Type} [CodeUnit α]

namespace Thread

/-- Zero or more steps from a thread to another. -/
inductive Steps (program : Program) (subject : Array α)
    (limit : StackLimit) : Thread → Thread → Prop where
  | refl {thread : Thread} : Steps program subject limit thread thread
  | step {first thread next : Thread} (prior : Steps program subject limit first thread)
      (continues : thread.step program subject limit = .running next) :
      Steps program subject limit first next

/-- The threads that the attempt at a start reaches, whatever memory it begins in. -/
def Reachable (program : Program) (subject : Array α) (limit : StackLimit) (start : Nat)
    (thread : Thread) :
    Prop :=
  ∃ memory first, initial program start memory = .ok first ∧
    Steps program subject limit first thread

end Thread

/-- How a step ends within a further budget of steps, and the memory that it leaves. -/
def Step.run (program : Program) (subject : Array α) (limit : StackLimit) (budget : Nat) :
    Step → Option (Outcome × Memory)
  | .running thread => thread.run program subject limit budget
  | .ended outcome memory => some (outcome, memory)

variable {program : Program} {subject : Array α} {limit : StackLimit} {budget start : Nat}

namespace Thread

/-- Steps can be made one after another. -/
theorem Steps.trans {first middle last : Thread}
    (before : Steps program subject limit first middle)
    (after : Steps program subject limit middle last) :
    Steps program subject limit first last := by
  induction after with
  | refl => exact before
  | step prior continues inductionHypothesis => exact .step inductionHypothesis continues

/-- A step executes the instruction that stands at the offset of the thread. -/
theorem step_of_fetch {thread : Thread} {instruction : Instruction UInt32}
    (fetched : program.fetch thread.pc = some instruction) :
    thread.step program subject limit =
      .ofEffect program (thread.execute program subject limit instruction) := by
  rw [step, fetched]

/-- A choice that nothing refuses pushes its frame and goes on behind it. -/
theorem step_of_room {thread : Thread} {target : UInt32}
    (fetched : program.fetch thread.pc = some (.pushBacktrack target))
    (room : thread.memory.refusal? program.frameSize limit = none)
    (positionFits : thread.position ≤ maxSlot) (targetFits : target.toNat ≤ maxSlot) :
    thread.step program subject limit =
      .running ⟨thread.pc + 5, thread.position,
        thread.memory.pushed program.frameSize thread.position target.toNat⟩ := by
  rw [step_of_fetch fetched, execute]
  simp only [Memory.push_eq_ok room program.frameSize_pos positionFits targetFits]
  rfl

/-- A choice that is refused a frame ends the attempt. -/
theorem step_of_refused {thread : Thread} {target : UInt32} {error : RunError}
    (fetched : program.fetch thread.pc = some (.pushBacktrack target))
    (refused : thread.memory.refusal? program.frameSize limit = some error) :
    thread.step program subject limit = .ended (.error error) .empty := by
  rw [step_of_fetch fetched, execute]
  simp only [Memory.push_eq_error refused]
  rfl

/-- A run is a step and a run of what it leads to. -/
theorem run_succ (thread : Thread) :
    thread.run program subject limit (budget + 1) =
      (thread.step program subject limit).run program subject limit budget := by
  rw [run]
  cases thread.step program subject limit <;> rfl

/-- A thread whose step runs on leads to where it runs on. -/
theorem run_of_step {thread next : Thread}
    (stepped : thread.step program subject limit = .running next) (budget : Nat) :
    thread.run program subject limit (1 + budget) = next.run program subject limit budget := by
  rw [Nat.add_comm, run_succ, stepped]
  rfl

/-- A run that ends makes its last step at a thread that steps lead to. -/
theorem exists_last_of_run {thread : Thread} {outcome : Outcome} {after : Memory}
    (ends : thread.run program subject limit budget = some (outcome, after)) :
    ∃ last, Steps program subject limit thread last ∧
      last.step program subject limit = .ended outcome after := by
  induction budget generalizing thread with
  | zero => contradiction
  | succ budget inductionHypothesis =>
    rw [run_succ] at ends
    cases found : thread.step program subject limit with
    | running next =>
      rw [found] at ends
      obtain ⟨last, steps, final⟩ := inductionHypothesis ends
      exact ⟨last, (Steps.refl.step found).trans steps, final⟩
    | ended outcome memory =>
      rw [found] at ends
      cases ends
      exact ⟨thread, .refl, found⟩

/-- A larger budget changes nothing about a run that ends. -/
theorem run_of_le {thread : Thread} {ended : Outcome × Memory} {more : Nat}
    (ends : thread.run program subject limit budget = some ended) (enough : budget ≤ more) :
    thread.run program subject limit more = some ended := by
  induction budget generalizing thread more with
  | zero => contradiction
  | succ budget inductionHypothesis =>
    obtain ⟨rest, rfl⟩ := Nat.exists_eq_add_of_le' enough
    rw [← Nat.add_assoc, run_succ]
    rw [run_succ] at ends
    cases found : thread.step program subject limit with
    | running next =>
      rw [found] at ends
      exact inductionHypothesis ends (Nat.le_add_left _ _)
    | ended outcome memory =>
      rw [found] at ends
      exact ends

/-- The thread that an attempt begins with, whatever memory it begins in. -/
theorem initial_eq_ok (fits : program.frameFits = true) (startFits : start ≤ maxSlot)
    (memory : Memory) :
    initial program start memory =
      .ok ⟨0, start,
        ⟨(Array.replicate program.frameSize unset).setIfInBounds 0 (start : Int), #[]⟩⟩ := by
  rw [initial, if_pos fits, Memory.reset_eq_ok startFits]

/-- An attempt that begins does so with a fresh state and no frames. -/
theorem eq_of_initial {memory : Memory} {first : Thread}
    (begins : initial program start memory = .ok first) :
    program.frameFits = true ∧ start ≤ maxSlot ∧
      first = ⟨0, start,
        ⟨(Array.replicate program.frameSize unset).setIfInBounds 0 (start : Int), #[]⟩⟩ := by
  by_cases fits : program.frameFits = true
  · by_cases startFits : start ≤ maxSlot
    · rw [initial_eq_ok fits startFits] at begins
      exact ⟨fits, startFits, (Except.ok.inj begins).symm⟩
    · rw [initial, if_pos fits, Memory.reset, toCell, if_neg startFits] at begins
      contradiction
  · rw [initial, if_neg fits] at begins
    contradiction

end Thread

/-- Every matcher has a ceiling that fits a slot. -/
theorem Matcher.limit_le (matcher : Matcher) : matcher.limit.frames ≤ maxSlot := by
  rw [limit]
  cases matcher.maxStack with
  | none => exact Nat.le_refl _
  | some frames => exact Nat.min_le_right _ _

/-- A failure without frames ends the attempt. -/
theorem Step.ofFailure_nil {memory : Memory} (none : memory.stack = #[]) :
    ofFailure program.frameSize memory = .ended .unmatched memory := by
  obtain ⟨state, stack⟩ := memory
  simp only at none
  subst none
  rw [ofFailure, Memory.hasFrame_nil program.frameSize_pos]
  rfl

/-- A search that tries one start ends as the attempt there. -/
theorem Program.scan_singleton (memory : Memory) :
    program.scan subject limit budget [start] memory =
      attempt program subject limit budget start memory := by
  rw [scan]
  split
  · rename_i after ends
    rw [scan, ends]
  · rfl

omit [CodeUnit α] in
/-- A run is not refused if its frames can be counted, its buffer holds the ends of the groups
and its subject has no more positions than a slot has numbers. -/
theorem Program.refusal?_eq_none_of_countable (countable : program.frameCountable = true)
    {held : Nat} (room : program.slotCount ≤ held) (unitsFit : subject.size ≤ maxSlot) :
    program.refusal? subject held = none := by
  have counted : program.frameSize < cellLimit := of_decide_eq_true countable
  rw [frameSize] at counted
  rw [refusal?, if_neg (by omega), if_neg (Nat.not_lt.mpr room),
    if_neg (Nat.not_lt.mpr unitsFit)]

/-- Frames that an array holds can be counted. -/
theorem Program.frameCountable_of_frameFits (fits : program.frameFits = true) :
    program.frameCountable = true := by
  have small : program.frameSize ≤ arrayLimit := of_decide_eq_true fits
  have limits : arrayLimit < cellLimit := by decide
  exact decide_eq_true (Nat.lt_of_le_of_lt small limits)

omit [CodeUnit α] in
/-- A run is not refused if its arrays fit, its buffer holds the ends of the groups and its
subject has no more positions than a slot has numbers. -/
theorem Program.refusal?_eq_none (fits : program.frameFits = true) {held : Nat}
    (room : program.slotCount ≤ held) (unitsFit : subject.size ≤ maxSlot) :
    program.refusal? subject held = none :=
  refusal?_eq_none_of_countable (frameCountable_of_frameFits fits) room unitsFit

/-- An attempt is a run of the thread that it begins with. -/
theorem attempt_of_initial {memory : Memory} {first : Thread}
    (begins : Thread.initial program start memory = .ok first) :
    attempt program subject limit budget start memory =
      first.run program subject limit budget := by
  rw [attempt, begins]

/-- An attempt with frames that no array holds breaks off. -/
theorem attempt_of_not_frameFits (tooLarge : program.frameFits = false) (memory : Memory) :
    attempt program subject limit budget start memory =
      some (.fault .frameTooLarge, .empty) := by
  rw [attempt, Thread.initial, tooLarge]
  rfl

omit [CodeUnit α] in
/-- A run that is not refused has no more positions in its subject than a slot has numbers. -/
theorem Program.size_le_of_refusal? {held : Nat}
    (accepted : program.refusal? subject held = none) : subject.size ≤ maxSlot := by
  rw [refusal?] at accepted
  split at accepted
  · contradiction
  · split at accepted
    · contradiction
    · split at accepted
      · contradiction
      · rename_i short
        exact Nat.le_of_not_lt short

/-- Matching at a start, if it is not refused, reports how the attempt there ends. -/
theorem Matcher.executeAt_eq (matcher : Matcher) {buffer : Array Int}
    (accepted : program.refusal? subject buffer.size = none) (within : start ≤ subject.size) :
    matcher.executeAt program subject buffer start budget =
      (attempt program subject matcher.limit budget start matcher.memory).map
        (matcher.report buffer) := by
  rw [executeAt, runAt, accepted, onlyStart, if_pos within]
  simp only [Program.scan_singleton]

/-- A larger budget changes nothing about an attempt that ends. -/
theorem attempt_of_le {memory : Memory} {ended : Outcome × Memory} {more : Nat}
    (ends : attempt program subject limit budget start memory = some ended)
    (enough : budget ≤ more) :
    attempt program subject limit more start memory = some ended := by
  unfold attempt at ends ⊢
  cases begins : Thread.initial program start memory with
  | error stop =>
    rw [begins] at ends
    exact ends
  | ok first =>
    rw [begins] at ends
    exact Thread.run_of_le ends enough

end RegexMachine
