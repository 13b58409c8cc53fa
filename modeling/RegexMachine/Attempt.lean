import RegexMachine.Thread

/-!
# Attempts

One attempt runs a program from one start. Its steps are total: a step executes an
instruction, and where the thread fails it resumes the newest frame or, without one, ends the
attempt. A run need not end, so the runner takes a budget of steps and answers nothing when
the budget is spent.
-/

namespace RegexMachine

variable {α : Type} [CodeUnit α]

/-- How an attempt or a search ends. -/
inductive Outcome where
  /-- There is a match, with these ends of the groups. -/
  | matched (slots : Array Int)
  /-- There is no match. -/
  | unmatched
  /-- The run is given up. -/
  | error (error : RunError)
  /-- The run breaks off. -/
  | fault (fault : Fault)
  deriving DecidableEq, Repr

/-- The outcome of a run that stops early. -/
def Stop.outcome : Stop → Outcome
  | .error reason => .error reason
  | .fault reason => .fault reason

/-- What a step leads to. -/
inductive Step where
  /-- A thread that runs on. -/
  | running (thread : Thread)
  /-- The end of the attempt, and the memory that it leaves. -/
  | ended (outcome : Outcome) (memory : Memory)
  deriving DecidableEq, Repr

namespace Step

/-- The step after a failure: the newest frame is resumed, and without one there is no
match. -/
def ofFailure (size : Nat) (memory : Memory) : Step :=
  if memory.hasFrame size then .running (memory.resumed size)
  else .ended .unmatched memory

/-- The step that an effect amounts to. -/
def ofEffect (program : Program) : Except Stop Effect → Step
  | .error stop => .ended stop.outcome .empty
  | .ok (.proceed thread) => .running thread
  | .ok (.fail memory) => ofFailure program.frameSize memory
  | .ok (.accept memory) =>
    .ended (.matched (memory.state.extract 0 program.slotCount)) memory

end Step

namespace Thread

/-- The next step of a thread. -/
def step (program : Program) (subject : Array α) (limit : StackLimit) (thread : Thread) : Step :=
  match program.fetch thread.pc with
  | none => .ended (.fault .noSuchInstruction) .empty
  | some instruction =>
    .ofEffect program (thread.execute program subject limit instruction)

/-- How a thread ends within a budget of steps, and the memory that it leaves. -/
def run (program : Program) (subject : Array α) (limit : StackLimit) :
    Nat → Thread → Option (Outcome × Memory)
  | 0, _ => none
  | budget + 1, thread =>
    match thread.step program subject limit with
    | .running thread => thread.run program subject limit budget
    | .ended outcome memory => some (outcome, memory)

end Thread

/-- The thread that an attempt begins with, in memory that earlier runs left. -/
def Thread.initial (program : Program) (start : Nat) (memory : Memory) : Except Stop Thread :=
  if program.frameFits then
    match memory.reset program.frameSize start with
    | .error stop => .error stop
    | .ok memory => .ok ⟨0, start, memory⟩
  else .error (.fault .frameTooLarge)

/-- How the attempt at a start ends within a budget of steps, and the memory that it leaves. -/
def attempt (program : Program) (subject : Array α) (limit : StackLimit) (budget start : Nat)
    (memory : Memory) : Option (Outcome × Memory) :=
  match Thread.initial program start memory with
  | .error stop => some (stop.outcome, .empty)
  | .ok thread => thread.run program subject limit budget

end RegexMachine
