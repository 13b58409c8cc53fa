import Mathlib.Algebra.Ring.Nat
import Mathlib.Data.List.Forall2
import RegexMachine.Proofs.Effects
import RegexMachine.Proofs.Inversion

/-!
# Wider frames

A program with more groups or scratch slots than another one with the same instructions keeps its
cells at other places. `Program.place` embeds the cells of the narrow frame in the wide one, and
`CellsWidened` relates states and frames that agree along this embedding, where the ends of the
added groups are not set. Every operation on the memory keeps the relation (`Memory.Widened`).
-/

namespace RegexMachine

variable {α : Type} [CodeUnit α]

namespace Program

/-- Where a cell in the frames of a program lies in the frames of a wider one: the ends of the
groups first, the scratch slots behind those of all groups, and the resume offset last. -/
def place (narrow wide : Program) (cell : Nat) : Nat :=
  if cell < narrow.slotCount then cell
  else if cell = narrow.frameSize - 1 then wide.frameSize - 1
  else wide.slotCount + (cell - narrow.slotCount)

/-- A program with the instructions of another one and at least its groups and scratch slots,
whose frames are small enough for the start of every frame to be counted. -/
structure Widens (narrow wide : Program) : Prop where
  fetch : ∀ pc, wide.fetch pc = narrow.fetch pc
  ignoreCase : wide.ignoreCase = narrow.ignoreCase
  filter : wide.filter = narrow.filter
  captures : narrow.captures ≤ wide.captures
  counters : narrow.counters ≤ wide.counters
  small : wide.frameSize ≤ 2 ^ 32

variable {narrow wide : Program}

/-- The ends of the groups stay where they are. -/
theorem place_group {cell : Nat} (inGroups : cell < narrow.slotCount) :
    narrow.place wide cell = cell :=
  if_pos inGroups

/-- The scratch slots stay in order behind the groups. -/
theorem place_scratch {slot : Nat} (inScratch : slot < narrow.counters) :
    narrow.place wide (narrow.slotCount + slot) = wide.slotCount + slot := by
  rw [place, if_neg (by omega), if_neg (by rw [frameSize]; omega), Nat.add_sub_cancel_left]

/-- The resume offset stays last. -/
theorem place_resume : narrow.place wide (narrow.frameSize - 1) = wide.frameSize - 1 := by
  rw [place, if_neg (by rw [frameSize]; omega), if_pos rfl]

/-- Every cell of a narrow frame is a group's end, a scratch slot's or the last one, and lies
among the same kind of cells in the wide frame. -/
theorem place_cases (narrow wide : Program) {cell : Nat} (within : cell < narrow.frameSize) :
    cell < narrow.slotCount ∧ narrow.place wide cell = cell ∨
      (∃ slot < narrow.counters, cell = narrow.slotCount + slot ∧
        narrow.place wide cell = wide.slotCount + slot) ∨
      cell = narrow.frameSize - 1 ∧ narrow.place wide cell = wide.frameSize - 1 := by
  by_cases inGroups : cell < narrow.slotCount
  · exact .inl ⟨inGroups, place_group inGroups⟩
  · by_cases last : cell = narrow.frameSize - 1
    · exact .inr (.inr ⟨last, last ▸ place_resume⟩)
    · rw [frameSize] at within last
      obtain ⟨slot, rfl⟩ := Nat.exists_eq_add_of_le (Nat.le_of_not_lt inGroups)
      have inScratch : slot < narrow.counters := by omega
      exact .inr (.inl ⟨slot, inScratch, rfl, place_scratch inScratch⟩)

/-- No cell of a narrow frame lies among the ends of the added groups. -/
theorem place_ne_added {cell added : Nat} (within : cell < narrow.frameSize)
    (behind : narrow.slotCount ≤ added) (inAdded : added < wide.slotCount) :
    narrow.place wide cell ≠ added := by
  have last : wide.frameSize = wide.slotCount + wide.counters + 1 := rfl
  rcases place_cases narrow wide within with ⟨_, place⟩ | ⟨slot, _, _, place⟩ | ⟨_, place⟩ <;> omega

namespace Widens

variable (widens : narrow.Widens wide)
include widens

/-- The wide program has at least as many ends of groups. -/
theorem slotCount_le : narrow.slotCount ≤ wide.slotCount := by
  rw [slotCount, slotCount]
  exact Nat.mul_le_mul_left 2 widens.captures

/-- The place of a cell is in the wide frame. -/
theorem place_lt {cell : Nat} (within : cell < narrow.frameSize) :
    narrow.place wide cell < wide.frameSize := by
  have groups := widens.slotCount_le
  have slots := widens.counters
  have behind : wide.frameSize = wide.slotCount + wide.counters + 1 := rfl
  rcases place_cases narrow wide within with ⟨_, place⟩ | ⟨slot, _, _, place⟩ | ⟨_, place⟩ <;> omega

/-- Different cells have different places. -/
theorem place_injective {first second : Nat} (firstWithin : first < narrow.frameSize)
    (secondWithin : second < narrow.frameSize)
    (same : narrow.place wide first = narrow.place wide second) : first = second := by
  have groups := widens.slotCount_le
  have slots := widens.counters
  have behind : wide.frameSize = wide.slotCount + wide.counters + 1 := rfl
  rcases place_cases narrow wide firstWithin with ⟨_, left⟩ | ⟨_, _, _, left⟩ | ⟨_, left⟩ <;>
    rcases place_cases narrow wide secondWithin with ⟨_, right⟩ | ⟨_, _, _, right⟩ | ⟨_, right⟩ <;>
      omega

end Widens

end Program

/-- The cells of a narrow frame and those of a wide one that hold the same at their places. The
ends of the added groups are not set. Added scratch slots may hold anything. -/
structure CellsWidened (narrow wide : Program) (cells wider : Array Int) : Prop where
  sized : cells.size = narrow.frameSize
  widerSized : wider.size = wide.frameSize
  placed : ∀ cell < narrow.frameSize, wider[narrow.place wide cell]? = cells[cell]?
  added : ∀ cell, narrow.slotCount ≤ cell → cell < wide.slotCount → wider[cell]? = some unset
  /-- No cell holds more than a slot does. -/
  atMost : ∀ (cell : Nat) (content : Int), cells[cell]? = some content → content ≤ maxSlot

namespace CellsWidened

variable {narrow wide : Program} {cells wider : Array Int} {cell : Nat}
  (widened : CellsWidened narrow wide cells wider)
include widened

/-- A cell set on both sides. -/
theorem set (widens : narrow.Widens wide) (within : cell < narrow.frameSize) (content : Int)
    (fits : content ≤ maxSlot) :
    CellsWidened narrow wide (cells.setIfInBounds cell content)
      (wider.setIfInBounds (narrow.place wide cell) content) where
  sized := by rw [Array.size_setIfInBounds, widened.sized]
  widerSized := by rw [Array.size_setIfInBounds, widened.widerSized]
  placed := by
    intro other otherWithin
    rw [Array.getElem?_setIfInBounds, Array.getElem?_setIfInBounds, widened.sized,
      widened.widerSized]
    by_cases same : cell = other
    · subst same
      rw [if_pos rfl, if_pos rfl, if_pos within, if_pos (widens.place_lt within)]
    · have apart : narrow.place wide cell ≠ narrow.place wide other :=
        fun equal => same (widens.place_injective within otherWithin equal)
      rw [if_neg same, if_neg apart]
      exact widened.placed other otherWithin
  added := by
    intro other behind inAdded
    rw [Array.getElem?_setIfInBounds_ne (Program.place_ne_added within behind inAdded)]
    exact widened.added other behind inAdded
  atMost := by
    intro other found read
    rw [Array.getElem?_setIfInBounds] at read
    split at read
    · split at read
      · obtain rfl := Option.some.inj read
        exact fits
      · contradiction
    · exact widened.atMost other found read

/-- Ends of groups unset on both sides. -/
theorem clear (widens : narrow.Widens wide) (first count : Nat)
    (inGroups : first + count ≤ narrow.slotCount) :
    CellsWidened narrow wide (Memory.unsetCells cells first count)
      (Memory.unsetCells wider first count) where
  sized := by rw [Memory.size_unsetCells, widened.sized]
  widerSized := by rw [Memory.size_unsetCells, widened.widerSized]
  placed := by
    intro cell within
    rw [Memory.getElem?_unsetCells, Memory.getElem?_unsetCells, widened.sized,
      widened.widerSized, widened.placed cell within]
    have groups := widens.slotCount_le
    have placeWithin := widens.place_lt within
    rcases Program.place_cases narrow wide within with
      ⟨_, place⟩ | ⟨slot, _, _, place⟩ | ⟨_, place⟩
    · rw [place] at placeWithin ⊢
      simp only [within, placeWithin]
    · rw [if_neg (by omega), if_neg (by omega)]
    · have last : wide.frameSize = wide.slotCount + wide.counters + 1 := rfl
      have lastNarrow : narrow.frameSize = narrow.slotCount + narrow.counters + 1 := rfl
      rw [if_neg (by omega), if_neg (by omega)]
  added := by
    intro cell behind inAdded
    rw [Memory.getElem?_unsetCells, if_neg (by omega)]
    exact widened.added cell behind inAdded
  atMost := by
    intro cell content read
    rw [Memory.getElem?_unsetCells] at read
    split at read
    · obtain rfl := Option.some.inj read
      decide
    · exact widened.atMost cell content read

/-- Frames with the same position and resume offset, copied from both states. -/
theorem frame (widens : narrow.Widens wide) {position resume : Nat}
    (positionFits : position ≤ maxSlot) (resumeFits : resume ≤ maxSlot) :
    CellsWidened narrow wide (Memory.frame narrow.frameSize position resume cells)
      (Memory.frame wide.frameSize position resume wider) := by
  have moved := widened.set widens narrow.one_lt_frameSize position (by omega)
  rw [Program.place_group narrow.one_lt_slotCount] at moved
  have resumed := moved.set widens (Nat.sub_lt narrow.frameSize_pos Nat.one_pos) resume (by omega)
  rw [Program.place_resume] at resumed
  exact resumed

/-- An end of a group is the same on both sides. -/
theorem group (inGroups : cell < narrow.slotCount) : wider[cell]? = cells[cell]? := by
  have same := widened.placed cell (Nat.lt_trans inGroups narrow.slotCount_lt_frameSize)
  rwa [Program.place_group inGroups] at same

/-- A scratch slot is the same on both sides. -/
theorem scratch {slot : Nat} (inScratch : slot < narrow.counters) :
    wider[wide.slotCount + slot]? = cells[narrow.slotCount + slot]? := by
  have same := widened.placed (narrow.slotCount + slot) (by rw [Program.frameSize]; omega)
  rwa [Program.place_scratch inScratch] at same

/-- The ends of the groups of the wide program are those of the narrow one and unset ends. -/
theorem extract_groups (widens : narrow.Widens wide) :
    wider.extract 0 wide.slotCount =
      cells.extract 0 narrow.slotCount ++
        Array.replicate (wide.slotCount - narrow.slotCount) unset := by
  have groups := widens.slotCount_le
  have narrowEnough : narrow.slotCount ≤ cells.size := by
    rw [widened.sized]
    exact Nat.le_of_lt narrow.slotCount_lt_frameSize
  have wideEnough : wide.slotCount ≤ wider.size := by
    rw [widened.widerSized]
    exact Nat.le_of_lt wide.slotCount_lt_frameSize
  apply Array.ext_getElem?
  intro cell
  rw [Array.getElem?_append, Array.size_extract, Array.getElem?_extract, Array.getElem?_extract,
    Array.getElem?_replicate, Nat.zero_add, Nat.sub_zero, Nat.sub_zero,
    Nat.min_eq_left narrowEnough, Nat.min_eq_left wideEnough]
  by_cases inGroups : cell < narrow.slotCount
  · rw [if_pos inGroups, if_pos inGroups, if_pos (by omega), widened.group inGroups]
  · rw [if_neg inGroups]
    by_cases inAdded : cell < wide.slotCount
    · rw [if_pos inAdded, if_pos (by omega), widened.added cell (by omega) inAdded]
    · rw [if_neg inAdded, if_neg (by omega)]

end CellsWidened

/-- The states that attempts at the same start begin with. -/
theorem Program.Widens.initial {narrow wide : Program} (widens : narrow.Widens wide) {start : Nat}
    (fits : start ≤ maxSlot) :
    CellsWidened narrow wide
      ((Array.replicate narrow.frameSize unset).setIfInBounds 0 (start : Int))
      ((Array.replicate wide.frameSize unset).setIfInBounds 0 (start : Int)) := by
  have first : 0 < narrow.slotCount := Nat.lt_of_succ_lt narrow.one_lt_slotCount
  have fresh : CellsWidened narrow wide (Array.replicate narrow.frameSize unset)
      (Array.replicate wide.frameSize unset) := by
    refine ⟨Array.size_replicate, Array.size_replicate, ?_, ?_, ?_⟩
    · intro cell within
      rw [Array.getElem?_replicate, Array.getElem?_replicate, if_pos within,
        if_pos (widens.place_lt within)]
    · intro cell _ inAdded
      rw [Array.getElem?_replicate,
        if_pos (Nat.lt_trans inAdded wide.slotCount_lt_frameSize)]
    · intro cell content read
      rw [Array.getElem?_replicate] at read
      split at read
      · obtain rfl := Option.some.inj read
        decide
      · contradiction
  have started := fresh.set widens narrow.frameSize_pos start (by omega)
  rwa [place_group first] at started

/-- Memories of runs of the two programs that agree: the states, and frame by frame the stacks. -/
structure Memory.Widened (narrow wide : Program) (memory wider : Memory) : Prop where
  state : CellsWidened narrow wide memory.state wider.state
  stack : ∃ frames widerFrames, Stacked narrow.frameSize memory.stack frames ∧
    Stacked wide.frameSize wider.stack widerFrames ∧
    List.Forall₂ (CellsWidened narrow wide) frames widerFrames

/-- The frames at a depth of two stacks hold the same position, if frame by frame they do. The
frames of the two stacks may be of different sizes. -/
theorem Stacked.positions_eq {size wideSize : Nat} {alike : Array Int → Array Int → Prop}
    (large : 1 < size) (wideLarge : 1 < wideSize)
    (samePosition : ∀ frame wider, alike frame wider → wider[1]? = frame[1]?)
    {frames widerFrames : List (Array Int)} {stack wider : Array Int}
    (agree : List.Forall₂ alike frames widerFrames) (stacked : Stacked size stack frames)
    (widerStacked : Stacked wideSize wider widerFrames) (depth : Nat) :
    wider[depth * wideSize + 1]? = stack[depth * size + 1]? := by
  induction agree generalizing stack wider with
  | nil =>
    cases stacked
    cases widerStacked
    simp
  | @cons frame widerFrame frames widerFrames newest older inductionHypothesis =>
    have lengths := older.length_eq
    cases stacked with
    | push below sized =>
      cases widerStacked with
      | push widerBelow widerSized =>
        rcases Nat.lt_trichotomy depth frames.length with within | atTop | beyond
        · rw [below.position_append large within,
            widerBelow.position_append wideLarge (lengths ▸ within)]
          exact inductionHypothesis below widerBelow
        · have whole : Stacked size _ ([] ++ frame :: frames) := .push below sized
          have widerWhole : Stacked wideSize _ ([] ++ widerFrame :: widerFrames) :=
            .push widerBelow widerSized
          have read := whole.getElem?_frame large
          have widerRead := widerWhole.getElem?_frame wideLarge
          rw [← atTop] at read
          rw [← lengths, ← atTop] at widerRead
          rw [read, widerRead, samePosition _ _ newest]
        · have widerBeyond : widerFrames.length < depth := lengths ▸ beyond
          rw [(Stacked.push below sized).position_eq_none beyond,
            (Stacked.push widerBelow widerSized).position_eq_none widerBeyond]

namespace Memory.Widened

variable {narrow wide : Program} {memory wider : Memory}
  (widened : Memory.Widened narrow wide memory wider)
include widened

/-- The stacks hold the same number of frames. -/
theorem depth_eq : wider.depth wide.frameSize = memory.depth narrow.frameSize := by
  obtain ⟨frames, widerFrames, stacked, widerStacked, agree⟩ := widened.stack
  rw [Memory.depth_eq stacked narrow.frameSize_pos,
    Memory.depth_eq widerStacked wide.frameSize_pos, agree.length_eq]

/-- The memories with a frame pushed on both sides. -/
theorem pushed (widens : narrow.Widens wide) {position resume : Nat}
    (positionFits : position ≤ maxSlot) (resumeFits : resume ≤ maxSlot) :
    Memory.Widened narrow wide (memory.pushed narrow.frameSize position resume)
      (wider.pushed wide.frameSize position resume) := by
  obtain ⟨frames, widerFrames, stacked, widerStacked, agree⟩ := widened.stack
  exact ⟨widened.state, _, _, Memory.stacked_pushed stacked widened.state.sized _ _,
    Memory.stacked_pushed widerStacked widened.state.widerSized _ _,
    .cons (widened.state.frame widens positionFits resumeFits) agree⟩

/-- The memories with both stacks cut to the same depth. -/
theorem cut (depth : Nat) :
    Memory.Widened narrow wide (memory.cut (depth * narrow.frameSize))
      (wider.cut (depth * wide.frameSize)) := by
  obtain ⟨frames, widerFrames, stacked, widerStacked, agree⟩ := widened.stack
  refine ⟨widened.state, _, _, stacked.cut depth, widerStacked.cut depth, ?_⟩
  rw [agree.length_eq]
  exact List.forall₂_drop _ agree

/-- The frames at a depth hold the same position, if there are any. -/
theorem framePosition_eq (depth : Nat) :
    wider.framePosition (depth * wide.frameSize) =
      memory.framePosition (depth * narrow.frameSize) := by
  obtain ⟨frames, widerFrames, stacked, widerStacked, agree⟩ := widened.stack
  have same : wider.stack[depth * wide.frameSize + 1]? =
      memory.stack[depth * narrow.frameSize + 1]? :=
    Stacked.positions_eq narrow.one_lt_frameSize wide.one_lt_frameSize
      (fun _ _ frames => frames.group narrow.one_lt_slotCount) agree stacked widerStacked depth
  rw [framePosition, framePosition, same]

end Memory.Widened

end RegexMachine
