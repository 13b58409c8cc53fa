import RegexMachine.Matcher
import RegexMachine.Proofs.Effects

/-!
# Subjects through their units

The machine sees a subject through the values of its units and through nothing else: two subjects
with the same values (`SameUnits`) run alike, step by step, whatever the widths of their units. So
a narrow subject runs as the wide one made by widening each of its units
(`Matcher.run_widened_subject`). The one place where units rather than values are compared is the
text of a group that is consumed again with letter case, and there values differ where units do
(`repeatsAt_exact_iff`).
-/

namespace RegexMachine

variable {α β : Type} [CodeUnit α] [CodeUnit β]

/-- Subjects whose units have the same values. -/
def SameUnits (subject : Array α) (other : Array β) : Prop :=
  ∀ position, unitAt? other position = unitAt? subject position

/-- A subject has the values of its units when each of them is widened. -/
theorem sameUnits_widened (subject : Array α) :
    SameUnits subject (subject.map CodeUnit.widen) := by
  intro position
  rw [unitAt?, unitAt?, Array.getElem?_map, Option.map_map]
  rfl

/-- With letter case, a text is repeated exactly where the same units stand. -/
theorem repeatsAt_exact_iff {subject : Array α} {position earlier length : Nat}
    (within : position + length ≤ subject.size) (earlierWithin : earlier + length ≤ subject.size) :
    repeatsAt false subject position earlier length = true ↔
      ∀ offset < length, subject[position + offset]? = subject[earlier + offset]? := by
  induction length generalizing position earlier with
  | zero => simp [repeatsAt]
  | succ length inductionHypothesis =>
    have here : subject[position]? = some subject[position] := Array.getElem?_eq_getElem (by omega)
    have there : subject[earlier]? = some subject[earlier] := Array.getElem?_eq_getElem (by omega)
    have heads : CodeUnit.widen subject[position] = CodeUnit.widen subject[earlier] ↔
        subject[position] = subject[earlier] :=
      ⟨CodeUnit.widen_injective _ _, congrArg CodeUnit.widen⟩
    rw [repeatsAt, unitAt?, unitAt?, here, there]
    simp only [Option.map_some, sameUnit, Bool.false_eq_true, if_false, Bool.and_eq_true,
      beq_iff_eq, heads]
    rw [inductionHypothesis (by omega) (by omega)]
    constructor
    · rintro ⟨same, later⟩ offset below
      cases offset with
      | zero => rw [Nat.add_zero, Nat.add_zero, here, there, same]
      | succ offset =>
        rw [Nat.add_comm offset 1, ← Nat.add_assoc, ← Nat.add_assoc]
        exact later offset (by omega)
    · intro all
      refine ⟨?_, fun offset below => ?_⟩
      · have first := all 0 (Nat.succ_pos length)
        rw [Nat.add_zero, Nat.add_zero, here, there] at first
        exact Option.some.inj first
      · rw [Nat.add_assoc, Nat.add_assoc, Nat.add_comm 1 offset]
        exact all (offset + 1) (by omega)

namespace SameUnits

variable {subject : Array α} {other : Array β} (same : SameUnits subject other)
include same

/-- Subjects with the same units are of the same length. -/
theorem size_eq : other.size = subject.size := by
  have ends : ∀ position, other.size ≤ position ↔ subject.size ≤ position := by
    intro position
    rw [← unitAt?_eq_none_iff, ← unitAt?_eq_none_iff, same position]
  exact Nat.le_antisymm ((ends _).mpr (Nat.le_refl _)) ((ends _).mp (Nat.le_refl _))

/-- An anchor holds at the same positions. -/
theorem holds_eq (anchor : Anchor) (position : Nat) :
    anchor.holds other position = anchor.holds subject position := by
  have words : ∀ position, Anchor.isWordAt other position = Anchor.isWordAt subject position := by
    intro position
    rw [Anchor.isWordAt, Anchor.isWordAt, same position]
  have lines : ∀ position, Anchor.endsLine other position = Anchor.endsLine subject position := by
    intro position
    rw [Anchor.endsLine, Anchor.endsLine, same position]
  cases anchor <;>
    simp only [Anchor.holds, Anchor.isWordBefore, words, lines, same.size_eq]

/-- A literal stands at the same positions. -/
theorem literalAt_eq (ignoreCase : Bool) (position : Nat) (units : List UInt16) :
    literalAt ignoreCase other position units = literalAt ignoreCase subject position units := by
  induction units generalizing position with
  | nil => rfl
  | cons target later inductionHypothesis =>
    rw [literalAt, literalAt, same position]
    simp only [inductionHypothesis]

/-- A text is repeated at the same positions. -/
theorem repeatsAt_eq (ignoreCase : Bool) (position earlier length : Nat) :
    repeatsAt ignoreCase other position earlier length =
      repeatsAt ignoreCase subject position earlier length := by
  induction length generalizing position earlier with
  | zero => rfl
  | succ length inductionHypothesis =>
    rw [repeatsAt, repeatsAt, same position, same earlier]
    simp only [inductionHypothesis]

/-- Instructions have the same effect. -/
theorem execute_eq (program : Program) (limit : StackLimit) (instruction : Instruction UInt32)
    (thread : Thread) :
    thread.execute program other limit instruction =
      thread.execute program subject limit instruction := by
  have checks : ∀ test next,
      thread.checkUnit other test next = thread.checkUnit subject test next := by
    intro test next
    rw [Thread.checkUnit, Thread.checkUnit, Thread.unitPasses, Thread.unitPasses, same]
  cases instruction <;>
    simp only [Thread.execute, Thread.test, Thread.backReference, Thread.literal, checks,
      same.holds_eq, same.literalAt_eq, same.repeatsAt_eq, same.size_eq]

/-- Threads take the same step. -/
theorem step_eq (program : Program) (limit : StackLimit) (thread : Thread) :
    thread.step program other limit = thread.step program subject limit := by
  rw [Thread.step, Thread.step]
  simp only [same.execute_eq]

/-- Threads run alike. -/
theorem run_eq (program : Program) (limit : StackLimit) (budget : Nat) (thread : Thread) :
    thread.run program other limit budget = thread.run program subject limit budget := by
  induction budget generalizing thread with
  | zero => rfl
  | succ budget inductionHypothesis =>
    rw [Thread.run, Thread.run, same.step_eq]
    simp only [inductionHypothesis]

/-- Attempts at a start end alike. -/
theorem attempt_eq (program : Program) (limit : StackLimit) (budget start : Nat) (memory : Memory) :
    attempt program other limit budget start memory =
      attempt program subject limit budget start memory := by
  rw [attempt, attempt]
  simp only [same.run_eq]

/-- Attempts at several starts end alike. -/
theorem scan_eq (program : Program) (limit : StackLimit) (budget : Nat) (starts : List Nat)
    (memory : Memory) :
    program.scan other limit budget starts memory =
      program.scan subject limit budget starts memory := by
  induction starts generalizing memory with
  | nil => rfl
  | cons start later inductionHypothesis =>
    rw [Program.scan, Program.scan, same.attempt_eq]
    simp only [inductionHypothesis]

/-- A search tries the same starts. -/
theorem candidates_eq (program : Program) (offset : Nat) :
    program.candidates other offset = program.candidates subject offset := by
  rw [Program.candidates, Program.candidates, same.size_eq]
  simp only [same _]

/-- Runs at the same starts are reported alike. -/
theorem runAt_eq (matcher : Matcher) (program : Program) (buffer : Array Int) (starts : List Nat)
    (budget : Nat) :
    matcher.runAt program other buffer starts budget =
      matcher.runAt program subject buffer starts budget := by
  rw [Matcher.runAt, Matcher.runAt, Program.refusal?, Program.refusal?, same.size_eq]
  simp only [same.scan_eq]

/-- Searches are reported alike. -/
theorem executeSearch_eq (matcher : Matcher) (program : Program) (buffer : Array Int)
    (offset budget : Nat) :
    matcher.execute program other buffer offset budget =
      matcher.execute program subject buffer offset budget := by
  rw [Matcher.execute, Matcher.execute, same.runAt_eq, same.candidates_eq]

end SameUnits

/-- A subject of units of any width, the narrow ones above all, runs as the wide subject that has
each unit widened. For every budget of steps, searching and matching at an offset report the same
outcome, the same buffer and the same memory of the matcher, or spend the budget both. -/
theorem Matcher.run_widened_subject (matcher : Matcher) (program : Program) (subject : Array α)
    (buffer : Array Int) (offset budget : Nat) :
    matcher.execute program (subject.map CodeUnit.widen) buffer offset budget =
        matcher.execute program subject buffer offset budget ∧
      matcher.executeAt program (subject.map CodeUnit.widen) buffer offset budget =
        matcher.executeAt program subject buffer offset budget ∧
      matcher.search program (subject.map CodeUnit.widen) offset budget =
        matcher.search program subject offset budget := by
  have same := sameUnits_widened subject
  refine ⟨same.executeSearch_eq matcher program buffer offset budget, ?_, ?_⟩
  · rw [executeAt, executeAt, same.runAt_eq, onlyStart, onlyStart, same.size_eq]
  · rw [search, search]
    simp only [same.executeSearch_eq]

end RegexMachine
