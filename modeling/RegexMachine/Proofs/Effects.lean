import RegexMachine.Thread
import RegexMachine.Proofs.FrameStack

/-!
# Effects of instructions

What the instructions do to a thread whose position is within the subject and whose cells are
there: one equation for each kind of effect. The proofs about runs use these equations and do
not look into the effects again.
-/

namespace RegexMachine

variable {α : Type} [CodeUnit α]

/-- Results of an operation in two runs: they stop for the same reason, or both give values
that are related. -/
inductive Agree {Result Wider : Type} (related : Result → Wider → Prop) :
    Except Stop Result → Except Stop Wider → Prop where
  | error (stop : Stop) : Agree related (.error stop) (.error stop)
  | ok {result : Result} {wider : Wider} (agree : related result wider) :
      Agree related (.ok result) (.ok wider)

/-- No unit stands at a position exactly behind the end of the subject. -/
theorem unitAt?_eq_none_iff {subject : Array α} {position : Nat} :
    unitAt? subject position = none ↔ subject.size ≤ position := by
  rw [unitAt?, Option.map_eq_none_iff, Array.getElem?_eq_none_iff]

/-- A unit stands at every position before the end of the subject. -/
theorem exists_unitAt? {subject : Array α} {position : Nat} (within : position < subject.size) :
    ∃ unit, unitAt? subject position = some unit := by
  rw [← Option.isSome_iff_exists, Option.isSome_iff_ne_none, ne_eq, unitAt?_eq_none_iff]
  omega

/-- A unit stands only before the end of the subject. -/
theorem lt_size_of_unitAt? {subject : Array α} {position : Nat} {unit : UInt16}
    (found : unitAt? subject position = some unit) : position < subject.size := by
  rw [← Nat.not_le, ← unitAt?_eq_none_iff, found]
  simp

/-- A literal that stands at a position ends within the subject. -/
theorem add_length_le_of_literalAt {ignoreCase : Bool} {subject : Array α} {position : Nat}
    {units : List UInt16} (within : position ≤ subject.size)
    (found : literalAt ignoreCase subject position units = true) :
    position + units.length ≤ subject.size := by
  induction units generalizing position with
  | nil => exact within
  | cons target later inductionHypothesis =>
    rw [literalAt] at found
    cases here : unitAt? subject position with
    | none =>
      rw [here] at found
      contradiction
    | some unit =>
      rw [here] at found
      have ends := inductionHypothesis (lt_size_of_unitAt? here)
        ((Bool.and_eq_true _ _).mp found).2
      rw [List.length_cons]
      omega

/-- A text that is repeated at a position ends within the subject. -/
theorem add_le_of_repeatsAt {ignoreCase : Bool} {subject : Array α}
    {position earlier length : Nat} (within : position ≤ subject.size)
    (found : repeatsAt ignoreCase subject position earlier length = true) :
    position + length ≤ subject.size := by
  induction length generalizing position earlier with
  | zero => exact within
  | succ length inductionHypothesis =>
    rw [repeatsAt] at found
    split at found
    · rename_i here there
      have ends := inductionHypothesis (lt_size_of_unitAt? here)
        ((Bool.and_eq_true _ _).mp found).2
      omega
    · contradiction

/-- A test of the unit at a position is passed exactly if there is one and it passes. -/
theorem Thread.unitPasses_iff {subject : Array α} {position : Nat} {test : UInt16 → Bool} :
    unitPasses subject position test = true ↔
      ∃ unit, unitAt? subject position = some unit ∧ test unit = true := by
  rw [unitPasses]
  cases unitAt? subject position <;> simp

/-- A unit that passes a test is within the subject. -/
theorem Thread.lt_size_of_unitPasses {subject : Array α} {position : Nat}
    {test : UInt16 → Bool} (passed : unitPasses subject position test = true) :
    position < subject.size := by
  obtain ⟨unit, found, _⟩ := unitPasses_iff.mp passed
  exact lt_size_of_unitAt? found

/-- Every anchor can be tested within the subject. -/
theorem Anchor.exists_holds {subject : Array α} {position : Nat} (anchor : Anchor)
    (within : position ≤ subject.size) : ∃ held, anchor.holds subject position = .ok held := by
  cases anchor with
  | bob | eob | wordBoundary | notWordBoundary => exact ⟨_, rfl⟩
  | bol =>
    by_cases atStart : position = 0
    · exact ⟨true, if_pos atStart⟩
    · have inside : position - 1 < subject.size := by omega
      obtain ⟨unit, found⟩ := exists_unitAt? inside
      exact ⟨_, by rw [holds, if_neg atStart, endsLine, found]⟩
  | eol =>
    by_cases atEnd : position = subject.size
    · exact ⟨true, if_pos atEnd⟩
    · have inside : position < subject.size := by omega
      obtain ⟨unit, found⟩ := exists_unitAt? inside
      exact ⟨_, by rw [holds, if_neg atEnd, endsLine, found]⟩

/-- The text of a group of the program is read off its two cells. -/
theorem Memory.group?_eq_ok {memory : Memory} {captures group : Nat} {first stop : Int}
    (inGroups : group < captures) (readFirst : memory.state[2 * group]? = some first)
    (readStop : memory.state[2 * group + 1]? = some stop) :
    memory.group? captures group =
      .ok (if first = unset ∨ stop = unset ∨ stop < first then none
        else some ⟨first.toNat, stop.toNat⟩) := by
  rw [group?, if_neg (Nat.not_le.mpr inGroups), read_eq_ok_iff.mpr readFirst,
    read_eq_ok_iff.mpr readStop]
  simp only
  split <;> rfl

namespace Thread

variable {subject : Array α} {thread : Thread} {cell next : Nat}

/-- Saving a number of a slot sets the cell. -/
theorem save_eq_ok {number : Nat} (fits : number ≤ maxSlot)
    (inState : cell < thread.memory.state.size) :
    thread.save number cell next =
      .ok (.proceed ⟨next, thread.position,
        { thread.memory with state := thread.memory.state.setIfInBounds cell number }⟩) := by
  rw [save, toCell_of_le fits]
  simp only [Memory.write_eq_ok inState, Effect.withMemory]

/-- Opening a group sets its start and unsets its end. -/
theorem openGroup_eq_ok {group : Nat} (fits : thread.position ≤ maxSlot)
    (inState : 2 * group + 1 < thread.memory.state.size) :
    thread.openGroup group next =
      .ok (.proceed ⟨next, thread.position, { thread.memory with
        state := (thread.memory.state.setIfInBounds (2 * group) thread.position).setIfInBounds
          (2 * group + 1) unset }⟩) := by
  rw [openGroup, toCell_of_le fits]
  simp only [Memory.write_eq_ok (Nat.lt_of_succ_lt inState)]
  rw [Memory.write_eq_ok (by simpa using inState)]
  rfl

/-- Requiring a change of position compares it with the cell. -/
theorem requireMoved_eq_ok {saved : Int} (read : thread.memory.state[cell]? = some saved)
    (fits : thread.position ≤ maxSlot) :
    thread.requireMoved cell next =
      .ok (.consumeIf (saved != thread.position) next thread.position 0 thread.memory) := by
  rw [requireMoved, Memory.read_eq_ok_iff.mpr read, toCell_of_le fits]

/-- Counting adds one to the cell, up to the largest number of a slot. -/
theorem count_eq_ok {max target : Nat} {before : Int}
    (read : thread.memory.state[cell]? = some before) :
    thread.count cell max target next =
      .ok (.proceed ⟨if min (before + 1) (maxSlot : Int) < max then target else next,
        thread.position, { thread.memory with
          state := thread.memory.state.setIfInBounds cell (min (before + 1) maxSlot) }⟩) := by
  have inState : cell < thread.memory.state.size := (Array.getElem?_eq_some_iff.mp read).1
  rw [count, Memory.read_eq_ok_iff.mpr read]
  simp only [Memory.write_eq_ok inState, Effect.withMemory]

/-- Testing an anchor that can be tested goes on or fails. -/
theorem test_eq_ok {anchor : Anchor} {held : Bool}
    (holds : anchor.holds subject thread.position = .ok held) :
    thread.test anchor subject next =
      .ok (.consumeIf held next thread.position 0 thread.memory) := by
  rw [test, holds]

/-- Consuming a literal goes on or fails. -/
theorem literal_eq_ok {ignoreCase : Bool} {units : List UInt16}
    (within : thread.position ≤ subject.size) :
    thread.literal ignoreCase subject units next =
      .ok (.consumeIf (literalAt ignoreCase subject thread.position units) next thread.position
        units.length thread.memory) := by
  rw [literal, if_neg (Nat.not_lt.mpr within)]

/-- Consuming the text of a group again goes on or fails. -/
theorem backReference_eq_ok {captures group : Nat} {ignoreCase : Bool} {text : Span}
    (found : thread.memory.group? captures group = .ok (some text))
    (within : thread.position ≤ subject.size) (textWithin : text.stop ≤ subject.size) :
    thread.backReference captures subject group ignoreCase next =
      .ok (.consumeIf
        (repeatsAt ignoreCase subject thread.position text.start (text.stop - text.start)) next
        thread.position (text.stop - text.start) thread.memory) := by
  rw [backReference, found]
  simp only
  rw [if_neg (Nat.not_lt.mpr within)]
  by_cases room : subject.size - thread.position < text.stop - text.start
  · have differs : repeatsAt ignoreCase subject thread.position text.start
        (text.stop - text.start) = false := by
      rw [← Bool.not_eq_true]
      intro repeated
      have ends := add_le_of_repeatsAt within repeated
      omega
    rw [if_pos room, differs]
    rfl
  · rw [if_neg room, if_neg (Nat.not_lt.mpr textWithin)]

/-- Reporting a match sets the end of group 0. -/
theorem accept_eq_ok (fits : thread.position ≤ maxSlot)
    (inState : 1 < thread.memory.state.size) :
    thread.accept = .ok (.accept { thread.memory with
      state := thread.memory.state.setIfInBounds 1 thread.position }) := by
  rw [accept, toCell_of_le fits]
  simp only [Memory.write_eq_ok inState]

end Thread

end RegexMachine
