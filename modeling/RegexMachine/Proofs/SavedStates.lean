import RegexMachine.Proofs.Runs

/-!
# States that are put aside

What the state and the flat stack of a run are for: a state, and copies of it that are put aside
and taken back, the newest first. `SavedStates` is this without an array of cells or computed
offsets, and each copy comes with the position and the offset that the push was given. The memory
of a run does the same under pushes, pops and writes of single cells: one operation answers the
same and keeps the correspondence (`Refines.perform`), and so does every sequence of them
(`Refines.performAll`), however far the stack can grow (`Memory.refines_savedStates`).
-/

namespace RegexMachine

/-- An operation on the state and the stack of a run. -/
inductive MemoryOperation where
  /-- Put a copy of the state aside, to go back to a position and resume at an offset. -/
  | push (position resume : Nat)
  /-- Take the newest copy back. -/
  | pop
  /-- Set a cell of the state. -/
  | write (cell : Nat) (content : Int)
  deriving DecidableEq, Repr

/-- What an operation answers. -/
inductive MemoryReply where
  /-- A push was made, or stopped. -/
  | pushed (result : Except Stop Unit)
  /-- There was nothing to pop, or this is the offset to resume at and the position. -/
  | popped (resumption : Option (Nat × Nat))
  /-- A cell was set, or stopped. -/
  | written (result : Except Stop Unit)

/-- Operations whose numbers a slot holds, on cells of the state. -/
def MemoryOperation.Admissible (size : Nat) : MemoryOperation → Prop
  | .push position resume => position ≤ maxSlot ∧ resume ≤ maxSlot
  | .pop => True
  | .write cell _ => cell < size

/-- What operations answer one after the other, and what they lead to. -/
def performAll {State : Type} (perform : MemoryOperation → State → MemoryReply × State) :
    List MemoryOperation → State → List MemoryReply × State
  | [], state => ([], state)
  | operation :: later, state =>
    let first := perform operation state
    let rest := performAll perform later first.2
    (first.1 :: rest.1, rest.2)

/-- A copy of a state that is put aside, and what the push was given. -/
structure SavedState where
  cells : Array Int
  position : Nat
  resume : Nat
  deriving DecidableEq, Repr

/-- A state and the copies that are put aside, the newest first. -/
structure SavedStates where
  state : Array Int
  saved : List SavedState
  deriving DecidableEq, Repr

namespace SavedStates

/-- A state of unset cells but for the start, and no copies. -/
def initial (size start : Nat) : SavedStates :=
  ⟨(Array.replicate size unset).setIfInBounds 0 (start : Int), []⟩

/-- Why no further copy may be put aside: there are as many as the ceiling allows, or there is no
memory for one more. -/
def refusal? (size : Nat) (limit : StackLimit) (saved : List SavedState) : Option RunError :=
  if saved.length = limit.frames then some .stackOverflow
  else if limit.cells < (saved.length + 1) * size then some .outOfMemory
  else none

/-- What an operation answers and does. The second cell of a copy is overwritten with the
position, and the last one with the offset to resume at. -/
def perform (size : Nat) (limit : StackLimit) :
    MemoryOperation → SavedStates → MemoryReply × SavedStates
  | .push position resume, ⟨state, saved⟩ =>
    match refusal? size limit saved with
    | some error => (.pushed (.error (.error error)), ⟨state, saved⟩)
    | none =>
      (.pushed (.ok ()),
        ⟨state, ⟨Memory.frame size position resume state, position, resume⟩ :: saved⟩)
  | .pop, ⟨state, []⟩ => (.popped none, ⟨state, []⟩)
  | .pop, ⟨_, newest :: older⟩ =>
    (.popped (some (newest.resume, newest.position)), ⟨newest.cells, older⟩)
  | .write cell content, ⟨state, saved⟩ =>
    (.written (.ok ()), ⟨state.setIfInBounds cell content, saved⟩)

end SavedStates

namespace Memory

/-- A push step by step: what it answers, and the memory that it leaves also where it stops. Room
is asked for before the stack is touched, then the state is copied, and then the two cells of the
copy are overwritten. -/
def pushInPlace (size : Nat) (limit : StackLimit) (position resume : Nat)
    (memory : Memory) : Except Stop Unit × Memory :=
  match memory.refusal? size limit with
  | some error => (.error (.error error), memory)
  | none =>
    let top := memory.stack.size
    let copied : Memory := { memory with stack := memory.stack ++ memory.state }
    match toCell position with
    | .error stop => (.error stop, copied)
    | .ok positionCell =>
      let placed : Memory :=
        { copied with stack := copied.stack.setIfInBounds (top + 1) positionCell }
      match toCell resume with
      | .error stop => (.error stop, placed)
      | .ok resumeCell =>
        (.ok (), { placed with stack := placed.stack.setIfInBounds (top + size - 1) resumeCell })

/-- What an operation on the memory of a run answers and does. -/
def perform (size : Nat) (limit : StackLimit) (operation : MemoryOperation) (memory : Memory) :
    MemoryReply × Memory :=
  match operation with
  | .push position resume =>
    let pushed := memory.pushInPlace size limit position resume
    (.pushed pushed.1, pushed.2)
  | .pop =>
    match memory.pop? size with
    | none => (.popped none, memory)
    | some thread => (.popped (some (thread.pc, thread.position)), thread.memory)
  | .write cell content =>
    match memory.write cell content with
    | .error stop => (.written (.error stop), memory)
    | .ok after => (.written (.ok ()), after)

variable {memory : Memory} {size : Nat} {limit : StackLimit} {position resume : Nat}

/-- A push step by step answers and leaves what the push of a run does. -/
theorem push_eq_pushInPlace (size : Nat) (limit : StackLimit) (position resume : Nat)
    (memory : Memory) :
    memory.push size limit position resume =
      (memory.pushInPlace size limit position resume).1.map
        fun _ => (memory.pushInPlace size limit position resume).2 := by
  rw [push, pushInPlace]
  cases memory.refusal? size limit with
  | some error => rfl
  | none =>
    cases toCell position with
    | error stop => rfl
    | ok positionCell => cases toCell resume <;> rfl

/-- A push that is refused leaves everything as it is. -/
theorem perform_push_of_refused {error : RunError}
    (refused : memory.refusal? size limit = some error) :
    memory.perform size limit (.push position resume) =
      (.pushed (.error (.error error)), memory) := by
  simp only [perform, pushInPlace, refused]

/-- A push that nothing refuses puts a frame on the stack. -/
theorem perform_push_of_room (room : memory.refusal? size limit = none) (positive : 0 < size)
    (positionFits : position ≤ maxSlot) (resumeFits : resume ≤ maxSlot) :
    memory.perform size limit (.push position resume) =
      (.pushed (.ok ()), memory.pushed size position resume) := by
  have pushes := memory.push_eq_pushInPlace size limit position resume
  rw [push_eq_ok room positive positionFits resumeFits] at pushes
  rw [perform]
  generalize memory.pushInPlace size limit position resume = inPlace at pushes
  obtain ⟨answer, after⟩ := inPlace
  cases answer with
  | error stop => contradiction
  | ok =>
    obtain rfl := Except.ok.inj pushes
    rfl

/-- Memory that holds a state and copies of it. -/
structure Refines (size : Nat) (limit : StackLimit) (memory : Memory)
    (model : SavedStates) : Prop where
  state : memory.state = model.state
  sized : memory.state.size = size
  stacked : Stacked size memory.stack (model.saved.map SavedState.cells)
  /-- The copies hold what the pushes were given. -/
  kept : ∀ saved ∈ model.saved, saved.cells[1]? = some (saved.position : Int) ∧
    saved.cells[size - 1]? = some (saved.resume : Int)
  few : model.saved.length ≤ limit.frames

namespace Refines

variable {model : SavedStates}

/-- The memory that an attempt begins with holds its state and no copies. -/
theorem initial (size : Nat) (limit : StackLimit) (start : Nat) :
    Refines size limit ⟨(Array.replicate size unset).setIfInBounds 0 (start : Int), #[]⟩
      (.initial size start) where
  state := rfl
  sized := by simp
  stacked := .empty
  kept := by simp [SavedStates.initial]
  few := Nat.zero_le _

/-- The stack is as deep as copies are put aside. -/
theorem depth_eq (refines : memory.Refines size limit model) (large : 2 < size) :
    memory.depth size = model.saved.length := by
  rw [Memory.depth_eq refines.stacked (by omega), List.length_map]

/-- A frame is refused as a further copy is. -/
theorem refusal?_eq (refines : memory.Refines size limit model) (large : 2 < size) :
    memory.refusal? size limit = SavedStates.refusal? size limit model.saved := by
  have few := refines.few
  have cells : memory.stack.size + size = (model.saved.length + 1) * size := by
    rw [refines.stacked.size_eq, List.length_map, Nat.add_one_mul]
  have full : limit.frames < model.saved.length + 1 ↔ model.saved.length = limit.frames := by
    omega
  rw [Memory.refusal?, SavedStates.refusal?, refines.depth_eq large, cells]
  simp only [full]

/-- A push puts a copy aside, or is refused as the copy is. -/
theorem push (refines : memory.Refines size limit model) (large : 2 < size)
    (positionFits : position ≤ maxSlot) (resumeFits : resume ≤ maxSlot) :
    (memory.perform size limit (.push position resume)).1 =
        (model.perform size limit (.push position resume)).1 ∧
      (memory.perform size limit (.push position resume)).2.Refines size limit
        (model.perform size limit (.push position resume)).2 := by
  have same := refines.refusal?_eq large
  cases room : memory.refusal? size limit with
  | some error =>
    rw [room] at same
    rw [perform_push_of_refused room, SavedStates.perform, ← same]
    exact ⟨rfl, refines⟩
  | none =>
    have free := (refusal?_eq_none_iff.mp room).1
    rw [refines.depth_eq large] at free
    rw [room] at same
    rw [perform_push_of_room room (by omega) positionFits resumeFits, SavedStates.perform, ← same]
    refine ⟨rfl, refines.state, refines.sized, ?_, ?_, free⟩
    · simp only [List.map_cons, ← refines.state]
      exact stacked_pushed refines.stacked refines.sized position resume
    · intro saved member
      rcases List.mem_cons.mp member with rfl | older
      · have sized : model.state.size = size := by rw [← refines.state, refines.sized]
        simp only [getElem?_frame sized large]
        rw [if_neg (by omega), if_pos trivial, if_pos trivial]
        exact ⟨rfl, rfl⟩
      · exact refines.kept saved older

/-- A pop takes the newest copy back, if there is one. -/
theorem pop (refines : memory.Refines size limit model) (large : 2 < size) :
    (memory.perform size limit .pop).1 = (model.perform size limit .pop).1 ∧
      (memory.perform size limit .pop).2.Refines size limit (model.perform size limit .pop).2 := by
  obtain ⟨state, saved⟩ := model
  obtain ⟨cells, stack⟩ := memory
  obtain ⟨rfl, sized, stacked, kept, few⟩ := refines
  cases saved with
  | nil =>
    simp only [List.map_nil] at stacked
    cases stacked
    have nothing : (⟨cells, #[]⟩ : Memory).pop? size = none := by
      rw [pop?, hasFrame_nil (by omega)]
      rfl
    simp only [perform, nothing, SavedStates.perform]
    exact ⟨trivial, rfl, sized, .empty, kept, few⟩
  | cons newest older =>
    simp only [List.map_cons] at stacked
    cases stacked with
    | @push below _ _ belowStacked newestSized =>
      obtain ⟨present, resumes⟩ :
          (⟨cells, below ++ newest.cells⟩ : Memory).hasFrame size = true ∧ _ :=
        resumed_append newestSized
      obtain ⟨position, resume⟩ := kept newest List.mem_cons_self
      rw [position, resume] at resumes
      have taken : (⟨cells, below ++ newest.cells⟩ : Memory).pop? size =
          some ⟨newest.resume, newest.position, ⟨newest.cells, below⟩⟩ := by
        rw [pop?, if_pos present, resumes]
        rfl
      simp only [perform, taken, SavedStates.perform]
      refine ⟨trivial, rfl, newestSized, belowStacked, ?_, ?_⟩
      · exact fun saved member => kept saved (List.mem_cons_of_mem _ member)
      · exact Nat.le_of_succ_le few

/-- Setting a cell sets it in the state and in no copy. -/
theorem write (refines : memory.Refines size limit model) {cell : Nat} (within : cell < size)
    (content : Int) :
    (memory.perform size limit (.write cell content)).1 =
        (model.perform size limit (.write cell content)).1 ∧
      (memory.perform size limit (.write cell content)).2.Refines size limit
        (model.perform size limit (.write cell content)).2 := by
  have inState : cell < memory.state.size := by rw [refines.sized]; exact within
  simp only [perform, write_eq_ok inState, SavedStates.perform]
  refine ⟨trivial, ?_, ?_, refines.stacked, refines.kept, refines.few⟩
  · rw [refines.state]
  · rw [Array.size_setIfInBounds, refines.sized]

/-- An operation answers as it does on the copies, and keeps the memory in step with them. -/
theorem performs (refines : memory.Refines size limit model) (large : 2 < size)
    {operation : MemoryOperation} (admissible : operation.Admissible size) :
    (memory.perform size limit operation).1 = (model.perform size limit operation).1 ∧
      (memory.perform size limit operation).2.Refines size limit
        (model.perform size limit operation).2 := by
  cases operation with
  | push position resume => exact refines.push large admissible.1 admissible.2
  | pop => exact refines.pop large
  | write cell content => exact refines.write admissible content

/-- So does every sequence of operations. -/
theorem performAll (refines : memory.Refines size limit model) (large : 2 < size)
    {operations : List MemoryOperation}
    (admissible : ∀ operation ∈ operations, operation.Admissible size) :
    (RegexMachine.performAll (Memory.perform size limit) operations memory).1 =
        (RegexMachine.performAll (SavedStates.perform size limit) operations model).1 ∧
      (RegexMachine.performAll (Memory.perform size limit) operations memory).2.Refines size limit
        (RegexMachine.performAll (SavedStates.perform size limit) operations model).2 := by
  induction operations generalizing memory model with
  | nil => exact ⟨rfl, refines⟩
  | cons operation later inductionHypothesis =>
    obtain ⟨same, next⟩ := refines.performs large (admissible operation List.mem_cons_self)
    obtain ⟨sameLater, last⟩ := inductionHypothesis next
      fun other member => admissible other (List.mem_cons_of_mem _ member)
    refine ⟨?_, last⟩
    simp only [RegexMachine.performAll, same, sameLater]

end Refines

/-- There is nothing to pop exactly if no copy is put aside. -/
theorem Refines.pop?_eq_none_iff {model : SavedStates}
    (refines : memory.Refines size limit model) (large : 2 < size) :
    memory.pop? size = none ↔ model.saved = [] := by
  obtain ⟨state, saved⟩ := model
  have stacked := refines.stacked
  cases saved with
  | nil =>
    obtain ⟨cells, stack⟩ := memory
    simp only [List.map_nil] at stacked
    cases stacked
    rw [pop?, hasFrame_nil (by omega)]
    simp
  | cons newest older =>
    rw [pop?, if_pos (hasFrame_of_stacked stacked)]
    simp

/-- A push ends with an error exactly if it is refused with it. -/
theorem push_eq_error_iff (positive : 0 < size) {error : RunError} :
    memory.push size limit position resume = .error (.error error) ↔
      memory.refusal? size limit = some error := by
  refine ⟨fun ends => ?_, push_eq_error⟩
  cases room : memory.refusal? size limit with
  | some other =>
    rw [push_eq_error room] at ends
    cases ends
    rfl
  | none =>
    by_cases fits : position ≤ maxSlot ∧ resume ≤ maxSlot
    · rw [push_eq_ok room positive fits.1 fits.2] at ends
      contradiction
    · rw [push_eq_fault room (by omega)] at ends
      cases ends

/-- What operations on the memory of a run have to do with the same operations on a state and
copies of it. -/
structure Matches (size : Nat) (limit : StackLimit) (done : List MemoryReply × Memory)
    (expected : List MemoryReply × SavedStates) : Prop where
  replies : done.1 = expected.1
  state : done.2.state = expected.2.state
  depth : done.2.depth size = expected.2.saved.length
  /-- The stack is made of whole frames, and these are the copies. -/
  cells : done.2.stack.size = done.2.depth size * size
  frames : Stacked size done.2.stack (expected.2.saved.map SavedState.cells)
  /-- There is nothing to pop exactly if no copy is left, and then nothing changes. -/
  pop_none : done.2.pop? size = none ↔ expected.2.saved = []
  pop_keeps : done.2.pop? size = none → done.2.perform size limit .pop = (.popped none, done.2)
  /-- A push is refused exactly if no further copy may be put aside, because of the ceiling or
  below it because there is no memory for one more, and then nothing changes. -/
  push_refused : ∀ position ≤ maxSlot, ∀ resume ≤ maxSlot,
    (done.2.push size limit position resume = .error (.error .stackOverflow) ↔
      expected.2.saved.length = limit.frames)
  push_short : ∀ position ≤ maxSlot, ∀ resume ≤ maxSlot,
    (done.2.push size limit position resume = .error (.error .outOfMemory) ↔
      expected.2.saved.length < limit.frames ∧
        limit.cells < (expected.2.saved.length + 1) * size)
  push_keeps : ∀ position resume error,
    done.2.push size limit position resume = .error (.error error) →
      done.2.perform size limit (.push position resume) = (.pushed (.error (.error error)), done.2)

/-- Memory that holds a state and copies of it answers further operations as they are answered on
these. -/
theorem Refines.matches {done : List MemoryReply × Memory}
    {expected : List MemoryReply × SavedStates} (replies : done.1 = expected.1)
    (refines : done.2.Refines size limit expected.2) (large : 2 < size) :
    Matches size limit done expected := by
  have depth := refines.depth_eq large
  have few := refines.few
  have cells : done.2.stack.size = expected.2.saved.length * size := by
    rw [refines.stacked.size_eq, List.length_map]
  have positive : 0 < size := by omega
  refine ⟨replies, refines.state, depth, by rw [depth, cells], refines.stacked,
    refines.pop?_eq_none_iff large, ?_, ?_, ?_, ?_⟩
  · intro nothing
    simp only [perform, nothing]
  · intro position _ resume _
    rw [push_eq_error_iff positive, refusal?_eq_stackOverflow_iff, depth]
    omega
  · intro position _ resume _
    rw [push_eq_error_iff positive, refusal?_eq_outOfMemory_iff, depth, cells, Nat.add_one_mul]
  · intro position resume error refused
    exact perform_push_of_refused ((push_eq_error_iff positive).mp refused)

/-- The state and the flat stack of a run are a state and copies of it: after any sequence of
pushes, pops and writes of single cells they have answered as the copies do, and hold the same. -/
theorem refines_savedStates (matcher : Matcher) (size start : Nat) (memory : Memory)
    (operations : List MemoryOperation) (large : 3 ≤ size) (startFits : start ≤ maxSlot)
    (admissible : ∀ operation ∈ operations, operation.Admissible size) :
    ∃ fresh, memory.reset size start = .ok fresh ∧
      Matches size matcher.limit
        (performAll (Memory.perform size matcher.limit) operations fresh)
        (performAll (SavedStates.perform size matcher.limit) operations
          (.initial size start)) := by
  obtain ⟨replies, refines⟩ :=
    (Refines.initial size matcher.limit start).performAll large admissible
  exact ⟨_, reset_eq_ok startFits, refines.matches replies large⟩

/-- Two copies at a ceiling of two: a third one is refused, the newest is taken back with the cell
that was set before it was put aside, and the other two pops find the older one and nothing. -/
theorem refines_savedStates_two_copies :
    ∃ fresh, Memory.empty.reset 4 5 = .ok fresh ∧
      Matches 4 ⟨2, arrayLimit⟩
        (performAll (Memory.perform 4 ⟨2, arrayLimit⟩) [.push 6 70, .write 2 8, .push 7 80,
          .write 2 9, .push 8 90, .pop, .pop, .pop] fresh)
        ([.pushed (.ok ()), .written (.ok ()), .pushed (.ok ()), .written (.ok ()),
          .pushed (.error (.error .stackOverflow)), .popped (some (80, 7)),
          .popped (some (70, 6)), .popped none], ⟨#[5, 6, -1, 70], []⟩) := by
  have admissible : ∀ operation ∈ ([.push 6 70, .write 2 8, .push 7 80, .write 2 9, .push 8 90,
      .pop, .pop, .pop] : List MemoryOperation), operation.Admissible 4 := by
    simp [MemoryOperation.Admissible, maxSlot]
  exact refines_savedStates ⟨some 2, false, arrayLimit, .empty⟩ 4 5 .empty _ (by decide)
    (by decide) admissible

end Memory

end RegexMachine
