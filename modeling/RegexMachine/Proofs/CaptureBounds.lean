import RegexMachine.Captures
import RegexMachine.Proofs.LeftmostSearch
import RegexMachine.Proofs.Safety
import RegexMachine.Proofs.StateInvariant

/-!
# Bounds of captures

The ends of groups that a match reports lie between the start of the attempt and the end of the
subject (`Bounded`). Two invariants of the state add to what soundness says of every cell: a
program that does not set the start of group 0 keeps it at the start of the attempt
(`stateInvariant_start`), and while the position never moves backwards every group that has an end
has its start before it (`Ordered.stateInvariant`).
-/

namespace RegexMachine

variable {α : Type} [CodeUnit α]

namespace Instruction

/-- The instructions that set or unset the start of group 0. -/
inductive RewritesStart : Instruction UInt32 → Prop where
  | startCapture : RewritesStart (.startCapture 0)
  | clearCaptures {stop : UInt32} (positive : 0 < stop.toNat) :
      RewritesStart (.clearCaptures 0 stop)

end Instruction

section

variable {program : Program} {thread : Thread} {instruction : Instruction UInt32}

/-- A write behind the ends of the groups leaves them. -/
theorem getElem?_set_scratch {cells : Array Int} {cell slot : Nat} (content : Int)
    (inGroups : cell < program.slotCount) :
    (cells.setIfInBounds (program.slotCount + slot) content)[cell]? = cells[cell]? := by
  rw [Array.getElem?_setIfInBounds, if_neg (by omega)]

/-- A frame has the ends of the groups of its state, but for the end of group 0. -/
theorem getElem?_frame_group {cells : Array Int} {cell position resume : Nat}
    (sized : cells.size = program.frameSize) (inGroups : cell < program.slotCount)
    (apart : cell ≠ 1) :
    (Memory.frame program.frameSize position resume cells)[cell]? = cells[cell]? := by
  have groups := program.slotCount_lt_frameSize
  rw [Memory.getElem?_frame sized program.two_lt_frameSize, if_neg (by omega), if_neg apart]

/-- An instruction that does not rewrite the start of group 0 leaves it. -/
theorem getElem?_updated_zero (keeps : ¬ instruction.RewritesStart) :
    (thread.updated program instruction)[0]? = thread.memory.state[0]? := by
  have first : 0 < program.slotCount := Nat.lt_of_succ_lt
    (Program.groupEnd_lt_slotCount program.one_le_captures)
  cases instruction with
  | storeSp | storePosition | counterZero | counterNext => exact getElem?_set_scratch _ first
  | startCapture group =>
    have apart : group.toNat ≠ 0 := by
      intro zero
      obtain rfl : group = 0 := UInt32.toNat_inj.mp zero
      exact keeps .startCapture
    rw [Thread.updated, Array.getElem?_setIfInBounds_ne (by omega),
      Array.getElem?_setIfInBounds_ne (by omega)]
  | endCapture group => exact Array.getElem?_setIfInBounds_ne (by omega)
  | clearCaptures begins stop =>
    rw [Thread.updated, Memory.getElem?_unsetCells, if_neg]
    rintro ⟨fromZero, some, _⟩
    have zero : begins.toNat = 0 := by omega
    obtain rfl : begins = 0 := UInt32.toNat_inj.mp zero
    exact keeps (.clearCaptures (by omega))
  | success => exact Array.getElem?_setIfInBounds_ne (by omega)
  | _ => rfl

/-- A program that does not rewrite the start of group 0 keeps it at the start of the attempt. -/
theorem stateInvariant_start (start : Nat)
    (keeps : ∀ entry ∈ program.entries, ¬ entry.instruction.RewritesStart) :
    StateInvariant program fun _ cells => cells[0]? = some (start : Int) where
  updated fetched _ _ holds :=
    (getElem?_updated_zero (keeps _ (Program.fetch_eq_some_iff.mp fetched))).trans holds
  framed sized holds := by
    have first : 0 < program.slotCount := Nat.lt_of_succ_lt
      (Program.groupEnd_lt_slotCount program.one_le_captures)
    exact (getElem?_frame_group sized first (by omega)).trans holds
  moved _ holds := holds

/-- No group starts behind the position, and every group but the whole match that has an end has
its start before it. -/
def Ordered (program : Program) (position : Nat) (cells : Array Int) : Prop :=
  ∀ group, group < program.captures →
    (∀ first, cells[2 * group]? = some first → first ≤ position) ∧
    (group ≠ 0 → ∀ first stop, cells[2 * group]? = some first →
      cells[2 * group + 1]? = some stop → stop = unset ∨ first ≤ stop)

namespace Ordered

variable {position : Nat} {cells others : Array Int}

/-- Groups stay ordered when the position advances and their ends stay, that of the whole match
apart. -/
theorem congr {further : Nat} (ordered : Ordered program position cells)
    (onward : position ≤ further)
    (same : ∀ cell, cell < program.slotCount → cell ≠ 1 → others[cell]? = cells[cell]?) :
    Ordered program further others := by
  intro group inGroups
  have isEnd := Program.groupEnd_lt_slotCount inGroups
  obtain ⟨started, paired⟩ := ordered group inGroups
  rw [same (2 * group) (by omega) (by omega)]
  constructor
  · intro first found
    have before := started first found
    omega
  · intro apart
    rw [same (2 * group + 1) isEnd (by omega)]
    exact paired apart

/-- Groups stay ordered when one begins at the position. -/
theorem openGroup (ordered : Ordered program position cells) (opened : Nat) :
    Ordered program position
      ((cells.setIfInBounds (2 * opened) (position : Int)).setIfInBounds (2 * opened + 1)
        unset) := by
  intro group inGroups
  obtain ⟨started, paired⟩ := ordered group inGroups
  by_cases same : opened = group
  · subst same
    constructor
    · intro first found
      rw [Array.getElem?_setIfInBounds_ne (by omega), Array.getElem?_setIfInBounds,
        if_pos rfl] at found
      split at found
      · exact Int.le_of_eq (Option.some.inj found).symm
      · contradiction
    · intro _ first stop _ foundStop
      rw [Array.getElem?_setIfInBounds, if_pos rfl] at foundStop
      split at foundStop
      · exact .inl (Option.some.inj foundStop).symm
      · contradiction
  · have start : ((cells.setIfInBounds (2 * opened) (position : Int)).setIfInBounds
        (2 * opened + 1) unset)[2 * group]? = cells[2 * group]? := by
      rw [Array.getElem?_setIfInBounds_ne (by omega), Array.getElem?_setIfInBounds_ne (by omega)]
    have stop : ((cells.setIfInBounds (2 * opened) (position : Int)).setIfInBounds
        (2 * opened + 1) unset)[2 * group + 1]? = cells[2 * group + 1]? := by
      rw [Array.getElem?_setIfInBounds_ne (by omega), Array.getElem?_setIfInBounds_ne (by omega)]
    rw [start, stop]
    exact ⟨started, paired⟩

/-- Groups stay ordered when one ends at the position. -/
theorem closeGroup (ordered : Ordered program position cells) (closed : Nat) :
    Ordered program position (cells.setIfInBounds (2 * closed + 1) (position : Int)) := by
  intro group inGroups
  obtain ⟨started, paired⟩ := ordered group inGroups
  rw [Array.getElem?_setIfInBounds_ne (by omega)]
  refine ⟨started, ?_⟩
  intro apart first stop foundFirst foundStop
  by_cases same : closed = group
  · subst same
    rw [Array.getElem?_setIfInBounds, if_pos rfl] at foundStop
    split at foundStop
    · obtain rfl := Option.some.inj foundStop
      exact .inr (started first foundFirst)
    · contradiction
  · rw [Array.getElem?_setIfInBounds_ne (by omega)] at foundStop
    exact paired apart first stop foundFirst foundStop

/-- Groups stay ordered when some are forgotten. -/
theorem clear (ordered : Ordered program position cells) (begins stop : Nat) :
    Ordered program position
      (Memory.unsetCells cells (2 * begins) (2 * stop - 2 * begins)) := by
  intro group inGroups
  obtain ⟨started, paired⟩ := ordered group inGroups
  rw [Memory.getElem?_unsetCells, Memory.getElem?_unsetCells]
  by_cases cleared : begins ≤ group ∧ group < stop
  · constructor
    · intro first found
      split at found
      · obtain rfl := Option.some.inj found
        unfold unset
        omega
      · exact started first found
    · intro _ first last _ found
      by_cases present : 2 * group + 1 < cells.size
      · rw [if_pos (by omega)] at found
        exact .inl (Option.some.inj found).symm
      · rw [if_neg (by omega), Array.getElem?_eq_none (Nat.le_of_not_lt present)] at found
        contradiction
  · rw [if_neg (by omega), if_neg (by omega)]
    exact ⟨started, paired⟩

/-- Groups stay ordered under the update of an instruction. -/
theorem updated (ordered : Ordered program thread.position thread.memory.state) :
    Ordered program thread.position (thread.updated program instruction) := by
  cases instruction with
  | storeSp | storePosition | counterZero | counterNext =>
    exact ordered.congr (Nat.le_refl _) fun _ inGroups _ => getElem?_set_scratch _ inGroups
  | startCapture group => exact ordered.openGroup group.toNat
  | endCapture group => exact ordered.closeGroup group.toNat
  | clearCaptures begins stop => exact ordered.clear begins.toNat stop.toNat
  | success =>
    exact ordered.congr (Nat.le_refl _)
      fun _ _ apart => Array.getElem?_setIfInBounds_ne (Ne.symm apart)
  | _ => exact ordered

/-- A program that leaves no look-around with a match keeps its groups ordered. -/
theorem stateInvariant (forward : ∀ entry ∈ program.entries, ∀ slot target,
    entry.instruction ≠ .assertionSuccess slot target) :
    StateInvariant program (Ordered program) where
  updated _ _ onward ordered := ordered.updated.congr onward fun _ _ _ => rfl
  framed sized ordered := ordered.congr (Nat.le_refl _)
    fun _ inGroups apart => getElem?_frame_group sized inGroups apart
  moved fetched _ :=
    absurd rfl (forward _ (Program.fetch_eq_some_iff.mp fetched) _ _)

/-- The groups are ordered at the beginning of an attempt. -/
theorem initial (program : Program) (start : Nat) :
    Ordered program start
      ((Array.replicate program.frameSize unset).setIfInBounds 0 (start : Int)) := by
  have before : (unset : Int) ≤ start := by
    unfold unset
    omega
  intro group _
  constructor
  · intro first found
    rw [Array.getElem?_setIfInBounds] at found
    split at found
    · split at found
      · exact Int.le_of_eq (Option.some.inj found).symm
      · contradiction
    · rw [Array.getElem?_replicate] at found
      split at found
      · obtain rfl := Option.some.inj found
        exact before
      · contradiction
  · intro _ first stop _ found
    rw [Array.getElem?_setIfInBounds_ne (by omega), Array.getElem?_replicate] at found
    split at found
    · exact .inl (Option.some.inj found).symm
    · contradiction

end Ordered

end

/-- What is known of the ends of the groups that an attempt at a start reports, on a subject of
`units` units. -/
structure Bounded (program : Program) (units start : Nat) (slots : Array Int) : Prop where
  sized : slots.size = program.slotCount
  /-- The match ends between its start and the end of the subject. -/
  matchEnd : ∃ stop : Nat, slots[1]? = some (stop : Int) ∧ start ≤ stop ∧ stop ≤ units
  /-- So do all ends that are set. -/
  inSubject : ∀ (cell : Nat) (content : Int), slots[cell]? = some content →
    content = unset ∨ (start : Int) ≤ content ∧ content ≤ units
  /-- The match begins where the attempt does, if the program does not set its start. -/
  wholeMatch : (∀ entry ∈ program.entries, ¬ entry.instruction.RewritesStart) →
    slots[0]? = some (start : Int) ∧
      ∃ stop, (⟨slots⟩ : Captures).get? 0 = some ⟨start, stop⟩ ∧ start ≤ stop ∧ stop ≤ units
  /-- Groups do not end before they begin, if no look-around moves the position backwards. -/
  ordered : (∀ entry ∈ program.entries, ∀ slot target,
      entry.instruction ≠ .assertionSuccess slot target) →
    ∀ (group : Nat) (first stop : Int), slots[2 * group]? = some first →
      slots[2 * group + 1]? = some stop → first ≠ unset → stop ≠ unset → first ≤ stop

namespace Program

variable {program : Program} {subject : Array α} {limit : StackLimit} {start : Nat}

section

variable {thread : Thread} (sized : thread.memory.state.size = program.frameSize)
include sized

/-- A report has the position as the end of group 0 and the other ends from the state. -/
theorem getElem?_reported {cell : Nat} (inGroups : cell < program.slotCount) :
    (program.reported thread)[cell]? =
      if cell = 1 then some (thread.position : Int) else thread.memory.state[cell]? := by
  have enough := program.slotCount_lt_frameSize
  rw [reported, Array.getElem?_extract, Array.size_setIfInBounds, sized, if_pos (by omega),
    Nat.zero_add, Array.getElem?_setIfInBounds, sized]
  by_cases isEnd : cell = 1
  · rw [if_pos isEnd.symm, if_pos isEnd, if_pos (by omega)]
  · rw [if_neg (Ne.symm isEnd), if_neg isEnd]

/-- Only the ends of the groups of the program are reported. -/
theorem lt_slotCount_of_reported {cell : Nat} {content : Int}
    (found : (program.reported thread)[cell]? = some content) : cell < program.slotCount := by
  rw [← size_reported sized]
  exact (Array.getElem?_eq_some_iff.mp found).1

end

/-- The ends of the groups that a reachable thread would report are bounded. -/
theorem bounded_of_reachable (short : program.bytes.length ≤ maxSlot)
    (unitsFit : subject.size ≤ maxSlot) (limitFits : limit.frames ≤ maxSlot)
    (within : start ≤ subject.size) {thread : Thread}
    (reachable : Thread.Reachable program subject limit start thread) :
    Bounded program subject.size start (program.reported thread) := by
  have sound := reachable.sound short unitsFit limitFits within
  have sized := sound.memory.state.sized
  have second : 1 < program.slotCount := groupEnd_lt_slotCount program.one_le_captures
  have ends : (program.reported thread)[1]? = some (thread.position : Int) := by
    rw [getElem?_reported sized second, if_pos rfl]
  refine ⟨size_reported sized, ⟨thread.position, ends, sound.started, sound.within⟩, ?_, ?_, ?_⟩
  · intro cell content found
    have inGroups := lt_slotCount_of_reported sized found
    rw [getElem?_reported sized inGroups] at found
    split at found
    · obtain rfl := Option.some.inj found
      have started := sound.started
      have inside := sound.within
      exact .inr ⟨by omega, by omega⟩
    · exact (sound.memory.state.sound cell content found).inSubject inGroups
  · intro keeps
    obtain ⟨_, kept⟩ := (stateInvariant_start start keeps).reachable (by simp [frameSize])
      reachable
    have first : (program.reported thread)[0]? = some (start : Int) := by
      rw [getElem?_reported sized (by omega), if_neg (by omega)]
      exact kept.state
    refine ⟨first, thread.position, ?_, sound.started, sound.within⟩
    simp only [Captures.get?, Nat.mul_zero, Nat.zero_add, first, ends, Span.ofEnds?]
    rw [if_neg (by omega)]
    rfl
  · intro forward group first stop foundFirst foundStop firstSet stopSet
    have isEnd := lt_slotCount_of_reported sized foundStop
    have inGroups : group < program.captures := by
      rw [slotCount] at isEnd
      omega
    obtain ⟨_, kept⟩ := (Ordered.stateInvariant forward).reachable (.initial program start)
      reachable
    obtain ⟨started, paired⟩ := kept.state group inGroups
    rw [getElem?_reported sized (by omega), if_neg (by omega)] at foundFirst
    by_cases whole : group = 0
    · subst whole
      rw [ends] at foundStop
      obtain rfl := Option.some.inj foundStop
      exact started first foundFirst
    · rw [getElem?_reported sized isEnd, if_neg (by omega)] at foundStop
      exact (paired whole first stop foundFirst foundStop).resolve_left stopSet

/-- The ends of the groups that an attempt reports are bounded. -/
theorem bounded_of_attempt (short : program.bytes.length ≤ maxSlot)
    (unitsFit : subject.size ≤ maxSlot) (limitFits : limit.frames ≤ maxSlot)
    (within : start ≤ subject.size) {memory after : Memory} {budget : Nat} {slots : Array Int}
    (ends : attempt program subject limit budget start memory =
      some (.matched slots, after)) : Bounded program subject.size start slots := by
  cases begins : Thread.initial program start memory with
  | error stop =>
    rw [attempt, begins] at ends
    cases stop <;> cases ends
  | ok first =>
    rw [attempt_of_initial begins] at ends
    obtain ⟨last, steps, final⟩ := Thread.exists_last_of_run ends
    obtain ⟨_, rfl⟩ := Thread.matched_of_ended final
    exact bounded_of_reachable short unitsFit limitFits within ⟨memory, first, begins, steps⟩

/-- Whatever an attempt, matching at a start or a search reports lies between the start of the
attempt and the end of the subject. -/
theorem captures_bounded (matcher : Matcher) (program : Program) (subject : Array α)
    (start : Nat) (short : program.bytes.length ≤ maxSlot)
    (unitsFit : subject.size ≤ maxSlot) :
    (start ≤ subject.size → ∀ memory budget slots after,
      attempt program subject matcher.limit budget start memory =
        some (.matched slots, after) → Bounded program subject.size start slots) ∧
    (∀ buffer slots result,
      matcher.ExecutesAt program subject buffer start (.matched slots) result →
        Bounded program subject.size start slots) ∧
    ∀ offset buffer slots result,
      matcher.Executes program subject buffer offset (.matched slots) result →
        ∃ found, offset ≤ found ∧ Bounded program subject.size found slots := by
  have limitFits := matcher.limit_le
  refine ⟨?_, ?_, ?_⟩
  · intro within memory budget slots after ends
    exact bounded_of_attempt short unitsFit limitFits within ends
  · intro buffer slots result executes
    obtain ⟨within, budget, after, ends⟩ := Matcher.attemptEnds_of_executesAt executes
    exact bounded_of_attempt short unitsFit limitFits within ends
  · intro offset buffer slots result executes
    obtain ⟨found, candidate, budget, after, ends⟩ :=
      Matcher.exists_candidate_of_executes executes
    exact ⟨found, candidate.1,
      bounded_of_attempt short unitsFit limitFits candidate.le_size ends⟩

/-- A group around the last unit of a subject. -/
theorem captures_bounded_group :
    ∃ program, ofBytes [11, 1, 0, 0, 0, 19, 97, 12, 1, 0, 0, 0, 29] 2 0 = .ok program ∧
      program.bytes.length ≤ maxSlot ∧
      Bounded program (#[98, 97] : Array UInt8).size 1 #[1, 2, 1, 2] := by
  have runs : ((ofBytes [11, 1, 0, 0, 0, 19, 97, 12, 1, 0, 0, 0, 29] 2 0).toOption.map
      fun program => decide (program.bytes.length = 13 ∧
        attempt program (#[98, 97] : Array UInt8) Matcher.default.limit 4 1 .empty =
          some (.matched #[1, 2, 1, 2], ⟨#[1, 2, 1, 2, -1], #[]⟩))) = some true := by
    decide +kernel
  obtain ⟨program, accepted, length, ends⟩ := exists_ok_of_decide runs
  have short : program.bytes.length ≤ maxSlot := by
    rw [length]
    decide
  exact ⟨program, accepted, short,
    (captures_bounded Matcher.default program (#[98, 97] : Array UInt8) 1 short
      (by decide)).1 (by decide) .empty 4 _ _ ends⟩

end Program

end RegexMachine
