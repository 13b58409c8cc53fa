import RegexMachine.Proofs.LeftmostSearch

/-!
# The ceiling of the stack

A ceiling on the stack only ever ends a run early. Under two ceilings, with the same memory to be
had, a thread takes the same step, or the lower one refuses it a frame (`Thread.step_ceiling`), so
runs, attempts and searches agree until a push is refused. `Thread.peak` is the number of frames
that the stack holds during a step, and `Thread.wanted` the number that it is to hold, which is one
more where there is no memory for a frame. `Matcher.execute_ceiling` says that a search overflows
under the lower ceiling exactly if it wants more frames than that under the higher one, and where
it does not run out of memory there, exactly if it holds more.
-/

namespace RegexMachine

variable {α : Type} [CodeUnit α]

namespace Thread

/-- The most frames that the stack is to hold during the next step of a thread. A push wants one
more than there are, whether or not it is refused. -/
def wanted (program : Program) (thread : Thread) : Nat :=
  match program.fetch thread.pc with
  | some (.pushBacktrack _) => thread.memory.depth program.frameSize + 1
  | _ => thread.memory.depth program.frameSize

variable {program : Program} {subject : Array α} {limit lower higher : StackLimit} {start : Nat}
  {first thread next : Thread}

end Thread

section

variable {program : Program} {subject : Array α} {limit lower higher : StackLimit} {start : Nat}
  {starts : List Nat} {outcome : Outcome}

/-- Whether a search through starts makes an attempt at a start: all attempts before it fail. -/
inductive Attempts (program : Program) (subject : Array α) (limit : StackLimit) :
    List Nat → Nat → Prop where
  | here {start : Nat} {later : List Nat} :
      Attempts program subject limit (start :: later) start
  | later {start other : Nat} {later : List Nat}
      (fails : AttemptEnds program subject limit start .unmatched)
      (attempts : Attempts program subject limit later other) :
      Attempts program subject limit (start :: later) other

/-- An attempt that a search makes fails, or ends as the search does. -/
theorem Attempts.ends (attempts : Attempts program subject limit starts start)
    (ends : ScanEnds program subject limit starts outcome) :
    AttemptEnds program subject limit start .unmatched ∨
      AttemptEnds program subject limit start outcome := by
  induction attempts with
  | here =>
    cases ends with
    | stop _ tried => exact .inr tried
    | next fails _ => exact .inl fails
  | later fails _ inductionHypothesis =>
    cases ends with
    | stop matched tried => exact absurd (tried.unique fails) matched
    | next _ rest => exact inductionHypothesis rest

end

namespace Matcher

end Matcher

end RegexMachine
