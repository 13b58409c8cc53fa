import RegexMachine.Attempt

/-!
# Matchers

A matcher runs programs against subjects. A search tries starts from an offset on, in
ascending order, and ends at the first attempt that does not fail; a program with a filter is
tried only where the filter accepts the unit at the start. The memory of a matcher is used
again by every run and never read before it is reset. Runs take a budget of steps, which every
attempt has whole, and answer nothing when an attempt spends it.
-/

namespace RegexMachine

variable {α : Type} [CodeUnit α]

/-- A matcher: its options, and the memory that earlier runs left. -/
structure Matcher where
  /-- The most frames that the stack may hold, if there is a ceiling. -/
  maxStack : Option Nat
  /-- Whether runs are traced. -/
  tracing : Bool
  /-- The most cells of the stack that the allocator has memory for. -/
  stackRoom : Nat
  memory : Memory
  deriving DecidableEq, Repr

/-- How a run of a matcher ends: its outcome, the caller's buffer and the matcher. -/
structure Report where
  outcome : Outcome
  buffer : Array Int
  matcher : Matcher
  deriving DecidableEq, Repr

namespace Program

/-- The starts that a search tries, in order. Without a filter the end of the subject is one
of them; with a filter it is not, because no unit stands there. -/
def candidates (program : Program) (subject : Array α) (offset : Nat) : List Nat :=
  match program.filter with
  | none => List.range' offset (subject.size + 1 - offset)
  | some filter =>
    (List.range' offset (subject.size - offset)).filter fun start =>
      match unitAt? subject start with
      | none => false
      | some unit => filter.accepts unit

/-- A buffer for the ends of the groups with every cell unset, if one array holds it. -/
def newBuffer? (program : Program) : Option (Array Int) :=
  if program.slotsFit then some (Array.replicate program.slotCount unset) else none

/-- Why a run can not begin with this subject and a buffer of this size. -/
def refusal? (program : Program) (subject : Array α) (held : Nat) : Option Fault :=
  if cellLimit ≤ program.slotCount then some .frameTooLarge
  else if held < program.slotCount then some (.bufferTooShort held program.slotCount)
  else if maxSlot < subject.size then some .subjectTooLong
  else none

/-- How attempts at the given starts end: as the first one that does not fail ends, or
without a match. -/
def scan (program : Program) (subject : Array α) (limit : StackLimit) (budget : Nat) :
    List Nat → Memory → Option (Outcome × Memory)
  | [], memory => some (.unmatched, memory)
  | start :: later, memory =>
    match attempt program subject limit budget start memory with
    | some (.unmatched, memory) => program.scan subject limit budget later memory
    | ended => ended

end Program

namespace Matcher

/-- A matcher without a ceiling, not tracing, that has not run yet, with memory for every stack
that one array holds. -/
def default : Matcher :=
  ⟨none, false, arrayLimit, .empty⟩

/-- A matcher that traces its runs. -/
def traced : Matcher :=
  { default with tracing := true }

/-- How far the stack can grow. Depths are kept in slots, so there is always a ceiling, and no
allocator has memory for more than one array holds. -/
def limit (matcher : Matcher) : StackLimit where
  frames :=
    match matcher.maxStack with
    | none => maxSlot
    | some frames => min frames maxSlot
  cells := min matcher.stackRoom arrayLimit

/-- The buffer of a caller after a run: a match overwrites its first cells. -/
def overwrite (buffer : Array Int) : Outcome → Array Int
  | .matched slots => slots ++ buffer.extract slots.size buffer.size
  | _ => buffer

/-- The report of a run that ended. -/
def report (matcher : Matcher) (buffer : Array Int) (ended : Outcome × Memory) : Report :=
  ⟨ended.1, overwrite buffer ended.1, { matcher with memory := ended.2 }⟩

/-- Run the attempts at the given starts, unless the subject or the buffer is refused. -/
def runAt (matcher : Matcher) (program : Program) (subject : Array α) (buffer : Array Int)
    (starts : List Nat) (budget : Nat) : Option Report :=
  match program.refusal? subject buffer.size with
  | some fault => some ⟨.fault fault, buffer, matcher⟩
  | none =>
    (program.scan subject matcher.limit budget starts matcher.memory).map
      (matcher.report buffer)

/-- Search for the leftmost match from an offset on, and write the ends of its groups into a
buffer. -/
def execute (matcher : Matcher) (program : Program) (subject : Array α) (buffer : Array Int)
    (offset budget : Nat) : Option Report :=
  matcher.runAt program subject buffer (program.candidates subject offset) budget

/-- The only start of a run that does not search: an offset beyond the subject is none. -/
def onlyStart (subject : Array α) (offset : Nat) : List Nat :=
  if offset ≤ subject.size then [offset] else []

/-- Match at an offset and nowhere else, whatever the filter. -/
def executeAt (matcher : Matcher) (program : Program) (subject : Array α)
    (buffer : Array Int) (offset budget : Nat) : Option Report :=
  matcher.runAt program subject buffer (onlyStart subject offset) budget

/-- Search for the leftmost match from an offset on, in a buffer made for it. -/
def search (matcher : Matcher) (program : Program) (subject : Array α)
    (offset budget : Nat) : Option Report :=
  match program.newBuffer? with
  | none => some ⟨.fault .frameTooLarge, #[], matcher⟩
  | some buffer => matcher.execute program subject buffer offset budget

end Matcher

end RegexMachine
