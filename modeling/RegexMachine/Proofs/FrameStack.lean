import RegexMachine.Memory

/-!
# Frames on the stack

The stack of a run is one array of cells. `Stacked` reads it as a list of frames, the newest
first, and the operations on the array become operations on the list: a push puts a frame in
front, resuming takes the first, and a cut keeps the oldest ones.
-/

namespace RegexMachine

/-- A number that a slot holds is the content of its cell. -/
theorem toCell_of_le {number : Nat} (fits : number ≤ maxSlot) : toCell number = .ok number :=
  if_pos fits

/-- A number that no slot holds has no cell. -/
theorem toCell_of_lt {number : Nat} (far : maxSlot < number) :
    toCell number = .error (.fault .slotOverflow) :=
  if_neg (Nat.not_le.mpr far)

/-- A stack of frames of a size, laid back to back in an array. The newest frame is the first
of the list and the last of the array. -/
inductive Stacked (size : Nat) : Array Int → List (Array Int) → Prop where
  | empty : Stacked size #[] []
  | push {stack frame : Array Int} {frames : List (Array Int)}
      (below : Stacked size stack frames) (sized : frame.size = size) :
      Stacked size (stack ++ frame) (frame :: frames)

namespace Stacked

variable {size : Nat} {stack : Array Int} {frames : List (Array Int)}

/-- The cells of a stack are the cells of its frames. -/
theorem size_eq (stacked : Stacked size stack frames) : stack.size = frames.length * size := by
  induction stacked with
  | empty => simp
  | push below sized inductionHypothesis =>
    rw [Array.size_append, inductionHypothesis, sized, List.length_cons, Nat.succ_mul]

/-- A stack cut at a frame boundary holds the frames below it. -/
theorem cut (stacked : Stacked size stack frames) (depth : Nat) :
    Stacked size (stack.shrink (depth * size)) (frames.drop (frames.length - depth)) := by
  induction stacked with
  | empty => simpa using Stacked.empty
  | @push stack frame frames below sized inductionHypothesis =>
    have cells := below.size_eq
    rw [Array.shrink_eq_take] at inductionHypothesis ⊢
    by_cases beyond : frames.length + 1 ≤ depth
    · have whole : (stack ++ frame).size ≤ depth * size := by
        rw [Array.size_append, cells, sized, ← Nat.succ_mul]
        exact Nat.mul_le_mul_right size beyond
      rw [Array.take_eq_extract, Array.extract_eq_self_of_le whole, List.length_cons,
        Nat.sub_eq_zero_of_le beyond]
      exact .push below sized
    · have within : depth * size ≤ stack.size := by
        rw [cells]
        exact Nat.mul_le_mul_right size (by omega)
      have fewer : (frame :: frames).length - depth = frames.length - depth + 1 := by
        rw [List.length_cons]
        omega
      rw [fewer, List.drop_succ_cons, Array.take_eq_extract, Array.extract_append,
        Nat.sub_eq_zero_of_le within]
      simpa using inductionHypothesis

/-- The cells of a frame stand behind those of the frames below it. -/
theorem getElem?_frame {above below : List (Array Int)} {frame : Array Int}
    (stacked : Stacked size stack (above ++ frame :: below)) {cell : Nat} (within : cell < size) :
    stack[below.length * size + cell]? = frame[cell]? := by
  induction above generalizing stack with
  | nil =>
    cases stacked with
    | push below sized =>
      rw [← below.size_eq, Array.getElem?_append_right (Nat.le_add_right _ _),
        Nat.add_sub_cancel_left]
  | cons newest above inductionHypothesis =>
    cases stacked with
    | @push stack _ _ below' sized =>
      have older : Stacked size stack (above ++ frame :: below) := below'
      have inside : below.length * size + cell < stack.size := by
        rw [older.size_eq, List.length_append, List.length_cons]
        calc below.length * size + cell
            < (below.length + 1) * size := by rw [Nat.succ_mul]; omega
          _ ≤ (above.length + (below.length + 1)) * size :=
            Nat.mul_le_mul_right size (Nat.le_add_left _ _)
      rw [Array.getElem?_append_left inside]
      exact inductionHypothesis older

/-- The cell of the position in the frame at a depth is a cell of a frame of the stack. -/
theorem exists_position (stacked : Stacked size stack frames) (large : 1 < size) {depth : Nat}
    (within : depth < frames.length) :
    ∃ frame ∈ frames, stack[depth * size + 1]? = frame[1]? := by
  have newer : frames.length - 1 - depth < frames.length := by omega
  refine ⟨frames[frames.length - 1 - depth], List.getElem_mem newer, ?_⟩
  have split := List.take_append_drop (frames.length - 1 - depth) frames
  rw [List.drop_eq_getElem_cons newer] at split
  rw [← split] at stacked
  have depths : (frames.drop (frames.length - 1 - depth + 1)).length = depth := by
    rw [List.length_drop]
    omega
  rw [← stacked.getElem?_frame large, depths]

/-- The cell of the position in an older frame is a cell of the stack below the newest one. -/
theorem position_append (stacked : Stacked size stack frames) (large : 1 < size) {depth : Nat}
    (within : depth < frames.length) (frame : Array Int) :
    (stack ++ frame)[depth * size + 1]? = stack[depth * size + 1]? := by
  refine Array.getElem?_append_left ?_
  rw [stacked.size_eq]
  calc depth * size + 1 < (depth + 1) * size := by rw [Nat.succ_mul]; omega
    _ ≤ frames.length * size := Nat.mul_le_mul_right size within

/-- The frames of a stack are determined by its cells. -/
theorem frames_unique (positive : 0 < size) {other : Array Int} {others : List (Array Int)}
    (stacked : Stacked size stack frames) (again : Stacked size other others)
    (same : stack = other) : frames = others := by
  induction stacked generalizing other others with
  | empty =>
    cases again with
    | empty => rfl
    | push _ sized =>
      have sizes := congrArg Array.size same
      rw [Array.size_append, sized, Array.size_empty] at sizes
      omega
  | push below sized inductionHypothesis =>
    cases again with
    | empty =>
      have sizes := congrArg Array.size same
      rw [Array.size_append, sized, Array.size_empty] at sizes
      omega
    | push older otherSized =>
      obtain ⟨lower, rfl⟩ := Array.append_inj' same (sized.trans otherSized.symm)
      rw [inductionHypothesis older lower]

/-- The cells of a stack are determined by its frames. -/
theorem stack_unique {other : Array Int} (stacked : Stacked size stack frames)
    (again : Stacked size other frames) : stack = other := by
  induction stacked generalizing other with
  | empty =>
    cases again
    rfl
  | push below sized inductionHypothesis =>
    cases again with
    | push older => rw [inductionHypothesis older]

/-- No frame stands at a depth that the stack does not reach. -/
theorem position_eq_none (stacked : Stacked size stack frames) {depth : Nat}
    (beyond : frames.length ≤ depth) : stack[depth * size + 1]? = none := by
  rw [Array.getElem?_eq_none_iff, stacked.size_eq]
  exact Nat.le_succ_of_le (Nat.mul_le_mul_right size beyond)

end Stacked

/-- Whether there is memory for as many frames of a size as the ceiling allows. -/
def StackLimit.Covers (size : Nat) (limit : StackLimit) : Prop :=
  limit.frames * size ≤ limit.cells

namespace Memory

variable {memory : Memory} {size cell : Nat} {content : Int}

/-- A cell of the state is read as it is. -/
theorem read_eq_ok_iff : memory.read cell = .ok content ↔ memory.state[cell]? = some content := by
  unfold read
  cases memory.state[cell]? <;> simp

/-- Every cell of the state can be read. -/
theorem exists_read (within : cell < memory.state.size) :
    ∃ content, memory.read cell = .ok content ∧ memory.state[cell]? = some content :=
  ⟨memory.state[cell], read_eq_ok_iff.mpr (Array.getElem?_eq_getElem within),
    Array.getElem?_eq_getElem within⟩

/-- Every cell of the state can be written. -/
theorem write_eq_ok (within : cell < memory.state.size) (content : Int) :
    memory.write cell content =
      .ok { memory with state := memory.state.setIfInBounds cell content } :=
  if_pos within

@[simp] theorem size_unsetCells (state : Array Int) (cell count : Nat) :
    (unsetCells state cell count).size = state.size := by
  induction count generalizing state cell with
  | zero => rfl
  | succ count inductionHypothesis =>
    rw [unsetCells, inductionHypothesis, Array.size_setIfInBounds]

/-- Cells that are unset are unset, and the others are as before. -/
theorem getElem?_unsetCells (state : Array Int) (first count cell : Nat) :
    (unsetCells state first count)[cell]? =
      if first ≤ cell ∧ cell < first + count ∧ cell < state.size then some unset
      else state[cell]? := by
  induction count generalizing state first with
  | zero =>
    rw [if_neg (by omega)]
    rfl
  | succ count inductionHypothesis =>
    rw [unsetCells, inductionHypothesis, Array.getElem?_setIfInBounds, Array.size_setIfInBounds]
    by_cases here : first = cell
    · subst here
      by_cases within : first < state.size
      · simp [within]
      · simp [within]
    · have same : (first + 1 ≤ cell ∧ cell < first + 1 + count ∧ cell < state.size) ↔
          (first ≤ cell ∧ cell < first + (count + 1) ∧ cell < state.size) := by omega
      simp only [if_neg here, same]

/-- Cells in order and within the state can be unset. -/
theorem clear_eq_ok {first stop : Nat} (ordered : first ≤ stop)
    (within : stop ≤ memory.state.size) :
    memory.clear first stop =
      .ok { memory with state := unsetCells memory.state first (stop - first) } :=
  if_pos ⟨ordered, within⟩

/-- The depth of a stack is the number of its frames. -/
theorem depth_eq {frames : List (Array Int)} (stacked : Stacked size memory.stack frames)
    (positive : 0 < size) : memory.depth size = frames.length := by
  rw [depth, stacked.size_eq, Nat.mul_div_cancel _ positive]

/-- The frame that a push copies from a state. -/
def frame (size position resume : Nat) (state : Array Int) : Array Int :=
  (state.setIfInBounds 1 position).setIfInBounds (size - 1) resume

@[simp] theorem size_frame (size position resume : Nat) (state : Array Int) :
    (frame size position resume state).size = state.size := by
  simp [frame]

/-- The cells of a frame: the position, the resume offset and copies of the state. -/
theorem getElem?_frame {position resume : Nat} {state : Array Int} (sized : state.size = size)
    (large : 2 < size) (cell : Nat) :
    (frame size position resume state)[cell]? =
      if cell = size - 1 then some (resume : Int)
      else if cell = 1 then some (position : Int)
      else state[cell]? := by
  unfold frame
  rw [Array.getElem?_setIfInBounds, Array.getElem?_setIfInBounds, Array.size_setIfInBounds, sized]
  by_cases last : cell = size - 1
  · subst last
    rw [if_pos rfl, if_pos (by omega), if_pos rfl]
  · rw [if_neg (Ne.symm last), if_neg last]
    by_cases second : cell = 1
    · subst second
      rw [if_pos rfl, if_pos (by omega), if_pos rfl]
    · rw [if_neg (Ne.symm second), if_neg second]

/-- The memory with a frame put on the stack. -/
def pushed (size position resume : Nat) (memory : Memory) : Memory :=
  { memory with stack := memory.stack ++ frame size position resume memory.state }

/-- A push puts its frame on those of the stack. -/
theorem stacked_pushed {frames : List (Array Int)} (stacked : Stacked size memory.stack frames)
    (sized : memory.state.size = size) (position resume : Nat) :
    Stacked size (memory.pushed size position resume).stack
      (frame size position resume memory.state :: frames) :=
  .push stacked (by rw [size_frame, sized])

/-- A push is refused at the ceiling with a stack overflow. -/
theorem refusal?_eq_stackOverflow_iff {limit : StackLimit} :
    memory.refusal? size limit = some .stackOverflow ↔ limit.frames ≤ memory.depth size := by
  rw [refusal?]
  split
  · next full => exact iff_of_true rfl (Nat.le_of_lt_succ full)
  · next free =>
    refine iff_of_false ?_ (by omega)
    split <;> simp

/-- A push below the ceiling is refused if there is no memory for one more frame. -/
theorem refusal?_eq_outOfMemory_iff {limit : StackLimit} :
    memory.refusal? size limit = some .outOfMemory ↔
      memory.depth size < limit.frames ∧ limit.cells < memory.stack.size + size := by
  rw [refusal?]
  split
  · next full => exact iff_of_false (by simp) (by omega)
  · split
    · next free short => exact iff_of_true rfl ⟨by omega, short⟩
    · exact iff_of_false (by simp) (by omega)

/-- Nothing refuses a push below the ceiling that there is memory for. -/
theorem refusal?_eq_none_iff {limit : StackLimit} :
    memory.refusal? size limit = none ↔
      memory.depth size < limit.frames ∧ memory.stack.size + size ≤ limit.cells := by
  rw [refusal?]
  split
  · next full => exact iff_of_false (by simp) (by omega)
  · split
    · exact iff_of_false (by simp) (by omega)
    · next free fits => exact iff_of_true rfl ⟨by omega, by omega⟩

/-- Where there is memory for every frame below the ceiling, it does not run out. -/
theorem not_covers_of_outOfMemory {limit : StackLimit} {frames : List (Array Int)}
    (stacked : Stacked size memory.stack frames) (positive : 0 < size)
    (refused : memory.refusal? size limit = some .outOfMemory) : ¬ limit.Covers size := by
  intro covers
  obtain ⟨free, short⟩ := refusal?_eq_outOfMemory_iff.mp refused
  rw [depth_eq stacked positive] at free
  rw [stacked.size_eq, ← Nat.succ_mul] at short
  have enough : frames.length.succ * size ≤ limit.frames * size := Nat.mul_le_mul_right size free
  rw [StackLimit.Covers] at covers
  omega

/-- Nothing refuses the first frame where there is a ceiling for one and memory for it. -/
theorem refusal?_of_frameless {limit : StackLimit} (state : Array Int) (frames : 0 < limit.frames)
    (cells : size ≤ limit.cells) : (⟨state, #[]⟩ : Memory).refusal? size limit = none := by
  rw [refusal?_eq_none_iff, depth, Array.size_empty, Nat.zero_div, Nat.zero_add]
  exact ⟨frames, cells⟩

/-- A push that nothing refuses puts a frame on the stack. -/
theorem push_eq_ok {limit : StackLimit} {position resume : Nat}
    (room : memory.refusal? size limit = none) (positive : 0 < size)
    (positionFits : position ≤ maxSlot) (resumeFits : resume ≤ maxSlot) :
    memory.push size limit position resume = .ok (memory.pushed size position resume) := by
  have top : memory.stack.size + size - 1 = memory.stack.size + (size - 1) := by omega
  rw [push, room, toCell_of_le positionFits, toCell_of_le resumeFits]
  simp only [top, pushed, frame]
  rw [Array.setIfInBounds_append_right (Nat.le_add_right _ _), Nat.add_sub_cancel_left,
    Array.setIfInBounds_append_right (Nat.le_add_right _ _), Nat.add_sub_cancel_left]

/-- A push that is refused ends with the error of the refusal. -/
theorem push_eq_error {limit : StackLimit} {position resume : Nat} {error : RunError}
    (refused : memory.refusal? size limit = some error) :
    memory.push size limit position resume = .error (.error error) := by
  rw [push, refused]

/-- A push that nothing refuses breaks off if a slot can not hold its numbers. -/
theorem push_eq_fault {limit : StackLimit} {position resume : Nat}
    (room : memory.refusal? size limit = none) (far : maxSlot < position ∨ maxSlot < resume) :
    memory.push size limit position resume = .error (.fault .slotOverflow) := by
  rw [push, room]
  dsimp only
  by_cases positionFits : position ≤ maxSlot
  · rw [toCell_of_le positionFits, toCell_of_lt (far.resolve_left (Nat.not_lt.mpr positionFits))]
  · rw [toCell_of_lt (Nat.lt_of_not_le positionFits)]

/-- A stack with a newest frame has a frame, and resumes it with the older ones. -/
theorem resumed_append {state stack frame : Array Int} (sized : frame.size = size) :
    (⟨state, stack ++ frame⟩ : Memory).hasFrame size = true ∧
      (⟨state, stack ++ frame⟩ : Memory).resumed size =
        ⟨(frame[size - 1]?.getD unset).toNat, (frame[1]?.getD unset).toNat, ⟨frame, stack⟩⟩ := by
  constructor
  · rw [hasFrame, decide_eq_true_iff, Array.size_append]
    omega
  · have top : (stack ++ frame).size - size = stack.size := by
      rw [Array.size_append]
      omega
    have newest : (stack ++ frame).extract stack.size (stack ++ frame).size = frame := by
      rw [Array.size_append, Array.extract_append_right, Array.extract_size]
    have older : (stack ++ frame).shrink stack.size = stack := by
      rw [Array.shrink_eq_take, Array.take_eq_extract, Array.extract_append_left,
        Array.extract_size]
    simp only [resumed, top, newest, older]

/-- The newest frame of a stack is the one that is resumed, with the older ones. -/
theorem resumed_of_stacked {frames : List (Array Int)}
    (stacked : Stacked size memory.stack frames) (positive : 0 < size)
    (present : memory.hasFrame size = true) :
    ∃ frame older stack, frames = frame :: older ∧ frame.size = size ∧
      Stacked size stack older ∧
      memory.resumed size =
        ⟨(frame[size - 1]?.getD unset).toNat, (frame[1]?.getD unset).toNat, ⟨frame, stack⟩⟩ := by
  obtain ⟨state, cells⟩ := memory
  simp only at stacked
  cases stacked with
  | empty =>
    have enough : size ≤ (#[] : Array Int).size := of_decide_eq_true present
    rw [Array.size_empty] at enough
    omega
  | @push stack frame older below sized =>
    exact ⟨frame, older, stack, rfl, sized, below, (resumed_append sized).2⟩

/-- A stack with a frame can resume it. -/
theorem hasFrame_of_stacked {frame : Array Int} {below : List (Array Int)}
    (stacked : Stacked size memory.stack (frame :: below)) : memory.hasFrame size = true := by
  rw [hasFrame, decide_eq_true_iff, stacked.size_eq, List.length_cons, Nat.succ_mul]
  exact Nat.le_add_left _ _

/-- A depth that can be counted has a first cell. -/
theorem frameStart_eq_ok {depth : Nat} (countable : depth * size < cellLimit) :
    frameStart size depth = .ok (depth * size) := by
  rw [frameStart, if_neg (by omega), Int.toNat_natCast, if_pos countable]

/-- The memory after the frame of a push is resumed. -/
def restored (size position resume : Nat) (memory : Memory) : Memory :=
  ⟨frame size position resume memory.state, memory.stack⟩

/-- The newest frame after a push is the one that was pushed. -/
theorem resumed_pushed {failed : Memory} {position resume : Nat}
    (sized : memory.state.size = size) (large : 2 < size)
    (stack : failed.stack = (memory.pushed size position resume).stack) :
    failed.hasFrame size = true ∧
      failed.resumed size = ⟨resume, position, memory.restored size position resume⟩ := by
  obtain ⟨state, top⟩ := failed
  simp only [pushed] at stack
  subst stack
  have newest : (frame size position resume memory.state).size = size := by
    rw [size_frame, sized]
  obtain ⟨present, resumes⟩ := resumed_append newest
  refine ⟨present, ?_⟩
  rw [resumes, getElem?_frame sized large, getElem?_frame sized large, if_pos rfl,
    if_neg (by omega), if_pos rfl]
  rfl

/-- A stack without frames has no frame to resume. -/
theorem hasFrame_nil {state : Array Int} (positive : 0 < size) :
    (⟨state, #[]⟩ : Memory).hasFrame size = false := by
  rw [hasFrame, decide_eq_false_iff_not]
  exact Nat.not_le.mpr positive

/-- The memory that an attempt begins with. -/
theorem reset_eq_ok {start : Nat} (fits : start ≤ maxSlot) :
    memory.reset size start =
      .ok ⟨(Array.replicate size unset).setIfInBounds 0 (start : Int), #[]⟩ := by
  rw [reset, toCell_of_le fits]
  simp

end Memory

end RegexMachine
