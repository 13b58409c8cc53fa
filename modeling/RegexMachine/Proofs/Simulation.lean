import RegexMachine.Proofs.Reference
import RegexMachine.Proofs.Safety

/-!
# One instruction against the reference

`Mirrors` relates a state to the slots of the reference: they agree on all cells but the end of
group 0, which frames overwrite, and the resume offset. `Thread.execute_follows` simulates one
instruction that uses the stack for nothing but a choice.
-/

namespace RegexMachine

variable {α : Type} [CodeUnit α]

/-- A state that agrees with slots, on all cells but the end of group 0. -/
def Mirrors (program : Program) (slots : Slots) (state : Array Int) : Prop :=
  ∀ cell, cell < program.frameSize - 1 → cell ≠ 1 → state[cell]? = some (slots cell)

namespace Mirrors

variable {program : Program} {slots : Slots} {state : Array Int}

/-- Setting a cell on both sides. -/
theorem set (mirrors : Mirrors program slots state) (cell : Nat) (content : Int)
    (inState : cell < state.size) :
    Mirrors program (slots.set cell content) (state.setIfInBounds cell content) := by
  intro other within apart
  rw [Array.getElem?_setIfInBounds]
  by_cases same : cell = other
  · subst same
    rw [if_pos rfl, if_pos inState, Slots.set, if_pos rfl]
  · rw [if_neg same, Slots.set, if_neg (Ne.symm same)]
    exact mirrors other within apart

/-- Unsetting cells on both sides. -/
theorem clear (mirrors : Mirrors program slots state) {first stop : Nat}
    (inState : stop ≤ state.size) :
    Mirrors program (slots.clear first stop)
      (Memory.unsetCells state first (stop - first)) := by
  intro cell within apart
  rw [Memory.getElem?_unsetCells, Slots.clear]
  by_cases cleared : first ≤ cell ∧ cell < stop
  · rw [if_pos (by omega), if_pos cleared]
  · rw [if_neg (by omega), if_neg cleared]
    exact mirrors cell within apart

/-- A frame agrees with the slots that its state agreed with. -/
theorem frame (mirrors : Mirrors program slots state) (sized : state.size = program.frameSize)
    (position resume : Nat) :
    Mirrors program slots (Memory.frame program.frameSize position resume state) := by
  intro cell within apart
  rw [Memory.getElem?_frame sized program.two_lt_frameSize, if_neg (Nat.ne_of_lt within),
    if_neg apart]
  exact mirrors cell within apart

/-- The state and the slots that an attempt begins with. -/
theorem initial (program : Program) (start : Nat) :
    Mirrors program (Slots.initial start)
      ((Array.replicate program.frameSize unset).setIfInBounds 0 (start : Int)) := by
  intro cell within apart
  have large := program.two_lt_frameSize
  rw [Array.getElem?_setIfInBounds, Array.size_replicate, Slots.initial]
  by_cases first : 0 = cell
  · rw [if_pos first, if_pos (by omega), if_pos first.symm]
  · rw [if_neg first, if_neg (Ne.symm first), Array.getElem?_replicate, if_pos (by omega)]

/-- Reading a scratch slot. -/
theorem read_scratch (mirrors : Mirrors program slots state) {slot : Nat}
    (inScratch : slot < program.counters) :
    state[program.slotCount + slot]? = some (slots (program.slotCount + slot)) := by
  have captured := program.one_le_captures
  apply mirrors
  · rw [Program.frameSize]
    omega
  · rw [Program.slotCount]
    omega

/-- Reading an end of a group other than the end of group 0. -/
theorem read_group (mirrors : Mirrors program slots state) {cell : Nat}
    (inGroups : cell < program.slotCount) (apart : cell ≠ 1) :
    state[cell]? = some (slots cell) := by
  apply mirrors cell _ apart
  have groups := program.slotCount_lt_frameSize
  omega

/-- The ends of the groups after a match that ends at a position. -/
theorem ends (mirrors : Mirrors program slots state) (sized : state.size = program.frameSize)
    (position : Nat) :
    (state.setIfInBounds 1 position).extract 0 program.slotCount =
      slots.ends program.captures position := by
  have captured := program.one_le_captures
  have enough : program.slotCount ≤ state.size := by
    rw [sized]
    exact Nat.le_of_lt program.slotCount_lt_frameSize
  have groups : program.slotCount = 2 * program.captures := rfl
  apply Array.ext_getElem?
  intro cell
  rw [Array.getElem?_extract, Array.size_setIfInBounds, Slots.ends, Array.getElem?_map,
    Array.getElem?_range, Nat.zero_add, Nat.sub_zero, Nat.min_eq_left enough, groups]
  by_cases within : cell < 2 * program.captures
  · rw [if_pos within, if_pos within, Array.getElem?_setIfInBounds, Option.map_some, Slots.set]
    by_cases second : 1 = cell
    · rw [if_pos second, if_pos (by omega), if_pos second.symm]
    · rw [if_neg second, if_neg (Ne.symm second)]
      exact mirrors.read_group within (Ne.symm second)
  · rw [if_neg within, if_neg within, Option.map_none]

end Mirrors

/-- Whether an instruction has a meaning without the stack: it does not read its depth or cut
it, and does not read the end of group 0, where frames keep their positions. -/
def Instruction.isStackFree {Target : Type} : Instruction Target → Bool
  | .storeSp _ | .assertionSuccess .. | .assertionFailure _ => false
  | .backReference group _ => group != 0
  | _ => true

/-- The effect on a thread that a move of the reference corresponds to. A choice pushes a frame
for its second branch, or ends the attempt because the stack can not grow. -/
inductive Follows (program : Program) (limit : StackLimit) (thread : Thread) (slots : Slots) :
    Move → Except Stop Effect → Prop where
  | advance (pc position : Nat) {memory : Memory} {later : Slots}
      (stack : memory.stack = thread.memory.stack)
      (mirrors : Mirrors program later memory.state) :
      Follows program limit thread slots (.advance pc position later)
        (.ok (.proceed ⟨pc, position, memory⟩))
  | fail {memory : Memory} (stack : memory.stack = thread.memory.stack) :
      Follows program limit thread slots .fail (.ok (.fail memory))
  | succeed {memory : Memory}
      (ends : memory.state.extract 0 program.slotCount =
        slots.ends program.captures thread.position) :
      Follows program limit thread slots .succeed (.ok (.accept memory))
  | choose (first second : Nat) :
      Follows program limit thread slots (.choose first second)
        (.ok (.proceed ⟨first, thread.position,
          thread.memory.pushed program.frameSize thread.position second⟩))
  | refuse (first second : Nat) {error : RunError}
      (refused : thread.memory.refusal? program.frameSize limit = some error) :
      Follows program limit thread slots (.choose first second) (.error (.error error))

/-- Consuming units under a test on both sides. -/
theorem Follows.consumeIf {program : Program} {limit : StackLimit} {thread : Thread}
    {slots : Slots} (passed : Bool) (next units : Nat)
    (mirrors : Mirrors program slots thread.memory.state) :
    Follows program limit thread slots (.advanceIf passed next thread.position units slots)
      (.ok (.consumeIf passed next thread.position units thread.memory)) := by
  cases passed with
  | true => exact .advance next (thread.position + units) rfl mirrors
  | false => exact .fail rfl

namespace Thread

variable {program : Program} {subject : Array α} {limit : StackLimit} {start : Nat}
  {thread : Thread} {instruction : Instruction UInt32} {slots : Slots}

/-- The text of a group other than group 0 is the same on both sides. -/
theorem group?_eq_of_mirrors (mirrors : Mirrors program slots thread.memory.state) {group : Nat}
    (apart : group ≠ 0) :
    thread.memory.group? program.captures group = .ok (slots.group? program.captures group) := by
  by_cases absent : program.captures ≤ group
  · rw [Memory.group?, if_pos absent, Slots.group?, if_pos absent]
  · have isEnd := Program.groupEnd_lt_slotCount (Nat.lt_of_not_le absent)
    rw [Slots.group?, if_neg absent]
    exact Memory.group?_eq_ok (Nat.lt_of_not_le absent)
      (mirrors.read_group (Nat.lt_of_succ_lt isEnd) (by omega))
      (mirrors.read_group isEnd (by omega))

/-- Every instruction without use of the stack does to a sound thread what its move does to the
slots. -/
theorem execute_follows (short : program.bytes.length ≤ maxSlot)
    (unitsFit : subject.size ≤ maxSlot) (sound : thread.Sound program subject.size limit start)
    (fetched : program.fetch thread.pc = some instruction)
    (stackFree : instruction.isStackFree = true)
    (mirrors : Mirrors program slots thread.memory.state) :
    ∃ move, program.move? subject thread.pc thread.position slots = some move ∧
      Follows program limit thread slots move
        (thread.execute program subject limit instruction) := by
  have fits := Nat.le_trans sound.within unitsFit
  have sized := sound.memory.state.sized
  have scratch : ∀ slot, instruction.slot? = some slot →
      slot.toNat < program.counters ∧
        program.slotCount + slot.toNat < thread.memory.state.size := by
    intro slot uses
    rw [sized]
    exact ⟨Program.slot_lt_counters fetched uses, Program.scratch_lt_frameSize fetched uses⟩
  have groupCell : ∀ group, group < program.captures →
      2 * group + 1 < thread.memory.state.size := by
    intro group inGroups
    rw [sized]
    exact Program.groupEnd_lt_frameSize inGroups
  unfold Program.move?
  rw [fetched]
  cases instruction with
  | storeSp | assertionSuccess | assertionFailure => contradiction
  | storePosition slot =>
    refine ⟨_, rfl, ?_⟩
    simp only [execute, save_eq_ok fits (scratch slot rfl).2]
    exact .advance _ _ rfl (mirrors.set _ _ (scratch slot rfl).2)
  | positionTest slot =>
    refine ⟨_, rfl, ?_⟩
    simp only [execute, requireMoved_eq_ok (mirrors.read_scratch (scratch slot rfl).1) fits]
    exact .consumeIf _ _ _ mirrors
  | assertion anchor =>
    obtain ⟨held, holds⟩ := anchor.exists_holds sound.within
    refine ⟨_, rfl, ?_⟩
    simp only [execute, test_eq_ok holds, Anchor.isMet, holds]
    exact .consumeIf _ _ _ mirrors
  | startCapture group =>
    have inState := groupCell group.toNat (Program.group_lt_captures (.inl fetched))
    refine ⟨_, rfl, ?_⟩
    simp only [execute, openGroup_eq_ok fits inState]
    exact .advance _ _ rfl
      ((mirrors.set _ _ (Nat.lt_of_succ_lt inState)).set _ _ (by simpa using inState))
  | endCapture group =>
    have inState := groupCell group.toNat (Program.group_lt_captures (.inr fetched))
    refine ⟨_, rfl, ?_⟩
    simp only [execute, save_eq_ok fits inState]
    exact .advance _ _ rfl (mirrors.set _ _ inState)
  | clearCaptures first stop =>
    obtain ⟨ordered, inState⟩ := Program.cleared_le_frameSize fetched
    rw [← sized] at inState
    refine ⟨_, rfl, ?_⟩
    simp only [execute, Memory.clear_eq_ok ordered inState]
    exact .advance _ _ rfl (mirrors.clear inState)
  | counterZero slot =>
    refine ⟨_, rfl, ?_⟩
    simp only [execute, save_eq_ok (Nat.zero_le _) (scratch slot rfl).2]
    exact .advance _ _ rfl (mirrors.set _ _ (scratch slot rfl).2)
  | counterNext slot max target =>
    refine ⟨_, rfl, ?_⟩
    simp only [execute, count_eq_ok (mirrors.read_scratch (scratch slot rfl).1)]
    exact .advance _ _ rfl (mirrors.set _ _ (scratch slot rfl).2)
  | pushBacktrack target =>
    obtain ⟨landing, landed⟩ := Program.exists_fetch_target fetched rfl
    have inBytes := Program.lt_length_of_fetch landed
    have landingFits : target.toNat ≤ maxSlot := by omega
    refine ⟨_, rfl, ?_⟩
    cases room : thread.memory.refusal? program.frameSize limit with
    | none =>
      simp only [execute, Memory.push_eq_ok room program.frameSize_pos fits landingFits]
      exact .choose _ _
    | some error =>
      simp only [execute, Memory.push_eq_error room]
      exact .refuse _ _ room
  | backReference group ignoreCase =>
    have apart : group.toNat ≠ 0 := by
      intro zero
      have same : group = 0 := UInt16.toNat_inj.mp zero
      rw [same] at stackFree
      contradiction
    have found := group?_eq_of_mirrors mirrors apart
    obtain ⟨text?, again, inSubject⟩ := group?_safe sound.memory group.toNat
    rw [found] at again
    obtain rfl := Except.ok.inj again
    simp only
    cases text : slots.group? program.captures group.toNat with
    | none =>
      refine ⟨_, rfl, ?_⟩
      simp only [execute, backReference, found, text]
      exact .advance _ _ rfl mirrors
    | some text =>
      refine ⟨_, rfl, ?_⟩
      simp only [execute]
      rw [text] at found
      rw [backReference_eq_ok found sound.within (inSubject _ text)]
      exact .consumeIf _ _ _ mirrors
  | checkByte | checkUnit | checkAny | checkRange =>
    exact ⟨_, rfl, .consumeIf _ _ _ mirrors⟩
  | checkLiteral units =>
    refine ⟨_, rfl, ?_⟩
    simp only [execute, literal_eq_ok sound.within]
    exact .consumeIf _ _ _ mirrors
  | jump target => exact ⟨_, rfl, .advance _ _ rfl mirrors⟩
  | failure => exact ⟨_, rfl, .fail rfl⟩
  | success =>
    have inState : 1 < thread.memory.state.size := by
      rw [sized]
      exact program.one_lt_frameSize
    refine ⟨_, rfl, ?_⟩
    simp only [execute, accept_eq_ok fits inState]
    exact .succeed (mirrors.ends sized _)

end Thread

end RegexMachine
