import RegexMachine.Instruction.Text
import RegexMachine.Matcher

/-!
# Traces

What a traced run reports while it goes on: a heading for every attempt, every instruction
with the position it is executed at, and what happens to the stack. A trace is a view of the
run and ends where the run ends.
-/

namespace RegexMachine

variable {α : Type} [CodeUnit α]

/-- One line of a trace. -/
inductive Event where
  /-- An attempt begins. -/
  | heading
  /-- An instruction is executed at a position. -/
  | fetched (position pc : Nat) (instruction : Instruction UInt32)
  /-- A frame was pushed, and the stack holds this many. -/
  | pushed (frames : Nat)
  /-- A frame was popped, and the stack holds this many. -/
  | popped (frames : Nat)
  /-- The stack was cut, and holds this many frames. -/
  | cut (frames : Nat)
  /-- The thread fails. -/
  | failed
  /-- The program reports a match with these ends of the groups. -/
  | accepted (slots : List Int)
  deriving DecidableEq, Repr

namespace Event

/-- The line about the stack after an operation on it. -/
def stackLine (operation : String) (frames : Nat) : String :=
  "stack after " ++ operation ++ ": " ++ toString frames ++ " frames"

/-- The line of an event. -/
def line : Event → String
  | .heading => "pos\tinstruction"
  | .fetched position pc instruction =>
    toString position ++ "\t" ++ toString pc ++ " " ++ instruction.text
  | .pushed frames => stackLine "push" frames
  | .popped frames => stackLine "pop" frames
  | .cut frames => stackLine "cut" frames
  | .failed => "fail"
  | .accepted slots => "saves: " ++ Text.list (slots.map fun slot => toString slot)

/-- What an instruction that succeeded or failed has done to the stack. -/
def ofStack (size : Nat) (memory : Memory) : Instruction UInt32 → List Event
  | .pushBacktrack _ => [.pushed (memory.depth size)]
  | .assertionSuccess .. | .assertionFailure _ => [.cut (memory.depth size)]
  | _ => []

/-- The events of a failure: the failure, and the frame that is popped if there is one. -/
def ofFailure (size : Nat) (memory : Memory) : List Event :=
  match memory.pop? size with
  | none => [.failed]
  | some thread => [.failed, .popped (thread.memory.depth size)]

/-- The events that follow an instruction. -/
def ofEffect (program : Program) (instruction : Instruction UInt32) :
    Except Stop Effect → List Event
  | .error _ => []
  | .ok (.proceed thread) => ofStack program.frameSize thread.memory instruction
  | .ok (.fail memory) =>
    ofStack program.frameSize memory instruction ++ ofFailure program.frameSize memory
  | .ok (.accept memory) =>
    [.accepted (memory.state.extract 0 program.slotCount).toList]

end Event

namespace Thread

/-- The events of the next step of a thread. -/
def events (program : Program) (subject : Array α) (limit : StackLimit) (thread : Thread) :
    List Event :=
  match program.fetch thread.pc with
  | none => []
  | some instruction =>
    .fetched thread.position thread.pc instruction ::
      Event.ofEffect program instruction (thread.execute program subject limit instruction)

/-- The events of a thread within a budget of steps, after those before it. -/
def trace (program : Program) (subject : Array α) (limit : StackLimit) :
    Nat → Array Event → Thread → Array Event
  | 0, before, _ => before
  | budget + 1, before, thread =>
    let before := before ++ thread.events program subject limit
    match thread.step program subject limit with
    | .running thread => thread.trace program subject limit budget before
    | .ended _ _ => before

end Thread

namespace Program

/-- The events of the attempt at a start, after those before it. -/
def traceAttempt (program : Program) (subject : Array α) (limit : StackLimit) (budget start : Nat)
    (memory : Memory) (before : Array Event) : Array Event :=
  let before := before.push .heading
  match Thread.initial program start memory with
  | .error _ => before
  | .ok thread => thread.trace program subject limit budget before

/-- The events of attempts at the given starts, after those before them. -/
def traceScan (program : Program) (subject : Array α) (limit : StackLimit) (budget : Nat) :
    List Nat → Memory → Array Event → Array Event
  | [], _, before => before
  | start :: later, memory, before =>
    let before := program.traceAttempt subject limit budget start memory before
    match attempt program subject limit budget start memory with
    | some (.unmatched, memory) => program.traceScan subject limit budget later memory before
    | _ => before

end Program

namespace Matcher

/-- The events of runs at the given starts with a buffer of this size. A matcher that does not
trace has none. -/
def traceAt (matcher : Matcher) (program : Program) (subject : Array α) (held : Nat)
    (starts : List Nat) (budget : Nat) : List Event :=
  if matcher.tracing && (program.refusal? subject held).isNone then
    (program.traceScan subject matcher.limit budget starts matcher.memory #[]).toList
  else []

/-- The events of `Matcher.execute`. -/
def traceExecute (matcher : Matcher) (program : Program) (subject : Array α) (held : Nat)
    (offset budget : Nat) : List Event :=
  matcher.traceAt program subject held (program.candidates subject offset) budget

/-- The events of `Matcher.executeAt`. -/
def traceExecuteAt (matcher : Matcher) (program : Program) (subject : Array α) (held : Nat)
    (offset budget : Nat) : List Event :=
  matcher.traceAt program subject held (onlyStart subject offset) budget

/-- The events of `Matcher.search`. -/
def traceSearch (matcher : Matcher) (program : Program) (subject : Array α)
    (offset budget : Nat) : List Event :=
  match program.newBuffer? with
  | none => []
  | some buffer => matcher.traceExecute program subject buffer.size offset budget

end Matcher

end RegexMachine
