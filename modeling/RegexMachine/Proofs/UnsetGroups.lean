import RegexMachine.Proofs.Effects
import RegexMachine.Proofs.Paths

/-!
# Groups that are not set

A group that its path has not closed since it was last opened or cleared has no end in the state,
and so a back reference to it matches the empty text. Resuming a frame does not change this for any
group but the whole match: the position in a frame takes the place of the end of group 0 and is
left there. `Thread.History.backReference_unclosed` states the law with this condition.
-/

namespace RegexMachine

variable {α : Type} [CodeUnit α]

namespace Waypoint

/-- Whether a waypoint opens a group. -/
def opens (group : Nat) : Waypoint → Bool
  | .executed (.startCapture opened) => opened.toNat == group
  | _ => false

/-- Whether a waypoint closes a group. -/
def closes (group : Nat) : Waypoint → Bool
  | .executed (.endCapture closed) => closed.toNat == group
  | _ => false

/-- Whether a waypoint clears a group. -/
def clears (group : Nat) : Waypoint → Bool
  | .executed (.clearCaptures first stop) => first.toNat ≤ group && group < stop.toNat
  | _ => false

/-- Whether a waypoint leaves a group without an end: it opens or clears the group. -/
def renews (group : Nat) (waypoint : Waypoint) : Bool :=
  waypoint.opens group || waypoint.clears group

end Waypoint

namespace Path

/-- The waypoints on a path since a group was last opened or cleared, and all of them if it never
was. -/
def sinceRenewal (group : Nat) (path : Path) : List Waypoint :=
  path.takeWhile fun waypoint => !waypoint.renews group

/-- Whether a path has not closed a group since the group was last opened or cleared. -/
def Unclosed (group : Nat) (path : Path) : Prop :=
  ∀ waypoint ∈ path.sinceRenewal group, waypoint.closes group = false

instance (group : Nat) (path : Path) : Decidable (path.Unclosed group) :=
  inferInstanceAs (Decidable (∀ waypoint ∈ path.sinceRenewal group, waypoint.closes group = false))

/-- Whether a path has cleared a group, and not opened it since. -/
def Cleared (group : Nat) (path : Path) : Prop :=
  ∃ waypoint, path.find? (Waypoint.renews group) = some waypoint ∧ waypoint.clears group = true

/-- Whether no frame was resumed since a path last opened or cleared a group. -/
def Straight (group : Nat) (path : Path) : Prop :=
  .resumed ∉ path.sinceRenewal group

variable {group : Nat} {waypoint : Waypoint} {path : Path}

/-- A waypoint that neither opens nor clears a group is one since it was last opened or cleared. -/
theorem sinceRenewal_of_not_renews (keeps : waypoint.renews group = false) :
    sinceRenewal group (waypoint :: path) = waypoint :: sinceRenewal group path := by
  rw [sinceRenewal, List.takeWhile_cons_of_pos (by simp [keeps]), sinceRenewal]

end Path

/-- The ends of a group as a path tells them: no end if the path has not closed the group and, for
group 0, has not resumed a frame since, and no start if it has cleared the group. -/
structure Path.Tells (group : Nat) (path : Path) (state : Array Int) : Prop where
  stop : path.Unclosed group → group ≠ 0 ∨ path.Straight group →
    state[2 * group + 1]? = some unset
  start : path.Cleared group → state[2 * group]? = some unset

section

variable {program : Program} {start group : Nat} {thread : Thread}
  {instruction : Instruction UInt32} {path : Path}

/-- The ends of a group stay as they are when an instruction neither opens nor clears the group,
and closes it only if the cell is not its end. -/
theorem Thread.getElem?_updated_group {cell : Nat} (inGroups : group < program.captures)
    (continues : instruction ≠ .success)
    (ofGroup : cell = 2 * group ∨ cell = 2 * group + 1)
    (keeps : (Waypoint.executed instruction).renews group = false)
    (ends : cell = 2 * group + 1 → (Waypoint.executed instruction).closes group = false) :
    (thread.updated program instruction)[cell]? = thread.memory.state[cell]? := by
  have inState : cell < program.slotCount := by
    rw [Program.slotCount]
    omega
  cases instruction with
  | success => contradiction
  | storeSp slot | storePosition slot | counterZero slot | counterNext slot =>
    exact Array.getElem?_setIfInBounds_ne (by omega)
  | startCapture opened =>
    have other : opened.toNat ≠ group := by
      simpa [Waypoint.renews, Waypoint.opens, Waypoint.clears] using keeps
    simp only [updated]
    rw [Array.getElem?_setIfInBounds_ne (by omega), Array.getElem?_setIfInBounds_ne (by omega)]
  | endCapture closed =>
    have other : cell = 2 * group + 1 → closed.toNat ≠ group := by
      simpa [Waypoint.closes] using ends
    exact Array.getElem?_setIfInBounds_ne (by omega)
  | clearCaptures first stop =>
    have outside : first.toNat ≤ group → stop.toNat ≤ group := by
      simpa [Waypoint.renews, Waypoint.opens, Waypoint.clears] using keeps
    simp only [updated]
    rw [Memory.getElem?_unsetCells, if_neg (by omega)]
  | _ => rfl

/-- An instruction that opens or clears a group leaves it without an end. -/
theorem Thread.stop_unset_of_renews (inGroups : group < program.captures)
    (sized : thread.memory.state.size = program.frameSize)
    (renews : (Waypoint.executed instruction).renews group = true) :
    (thread.updated program instruction)[2 * group + 1]? = some unset := by
  have inState := Program.groupEnd_lt_frameSize inGroups
  cases instruction with
  | startCapture opened =>
    have same : opened.toNat = group := by
      simpa [Waypoint.renews, Waypoint.opens, Waypoint.clears] using renews
    simp only [updated, same]
    rw [Array.getElem?_setIfInBounds_self_of_lt (by simpa [sized] using inState)]
  | clearCaptures first stop =>
    have inside : first.toNat ≤ group ∧ group < stop.toNat := by
      simpa [Waypoint.renews, Waypoint.opens, Waypoint.clears] using renews
    simp only [updated]
    rw [Memory.getElem?_unsetCells, if_pos (by omega)]
  | _ => contradiction

/-- An instruction that clears a group leaves it without a start. -/
theorem Thread.start_unset_of_clears (inGroups : group < program.captures)
    (sized : thread.memory.state.size = program.frameSize)
    (clears : (Waypoint.executed instruction).clears group = true) :
    (thread.updated program instruction)[2 * group]? = some unset := by
  have inState := Program.groupEnd_lt_frameSize inGroups
  cases instruction with
  | clearCaptures first stop =>
    have inside : first.toNat ≤ group ∧ group < stop.toNat := by
      simpa [Waypoint.clears] using clears
    simp only [updated]
    rw [Memory.getElem?_unsetCells, if_pos (by omega)]
  | _ => contradiction

/-- A path that has not closed a group had not closed it before a waypoint that does not renew
it. -/
theorem Path.unclosed_of_not_renews {waypoint : Waypoint} (keeps : waypoint.renews group = false)
    (unclosed : Path.Unclosed group (waypoint :: path)) :
    waypoint.closes group = false ∧ Path.Unclosed group path := by
  rw [Unclosed, sinceRenewal_of_not_renews keeps] at unclosed
  exact ⟨unclosed _ List.mem_cons_self,
    fun other member => unclosed other (List.mem_cons_of_mem _ member)⟩

/-- A straight path was straight before a waypoint that does not renew the group. -/
theorem Path.straight_of_not_renews {waypoint : Waypoint} (keeps : waypoint.renews group = false)
    (straight : Path.Straight group (waypoint :: path)) :
    waypoint ≠ .resumed ∧ Path.Straight group path := by
  rw [Straight, sinceRenewal_of_not_renews keeps, List.mem_cons, not_or] at straight
  exact ⟨Ne.symm straight.1, straight.2⟩

/-- Instructions and frames keep what a path tells about the ends of a group. -/
theorem Path.tells_invariant (inGroups : group < program.captures) :
    PathInvariant program (Path.Tells group) where
  updated := by
    intro thread instruction path _ continues sized tells
    cases renews : (Waypoint.executed instruction).renews group with
    | true =>
      refine ⟨fun _ _ => Thread.stop_unset_of_renews inGroups sized renews, ?_⟩
      rintro ⟨waypoint, found, clears⟩
      rw [List.find?_cons_of_pos renews] at found
      obtain rfl := Option.some.inj found
      exact Thread.start_unset_of_clears inGroups sized clears
    | false =>
      constructor
      · intro unclosed straight
        obtain ⟨notClosed, unclosedBefore⟩ := unclosed_of_not_renews renews unclosed
        rw [Thread.getElem?_updated_group inGroups continues (.inr rfl) renews
          fun _ => notClosed]
        exact tells.stop unclosedBefore
          (straight.imp_right fun straight => (straight_of_not_renews renews straight).2)
      · rintro ⟨waypoint, found, clears⟩
        rw [List.find?_cons_of_neg (by simp [renews])] at found
        rw [Thread.getElem?_updated_group inGroups continues (.inl rfl) renews (by omega)]
        exact tells.start ⟨waypoint, found, clears⟩
  framed := by
    intro position resume path state sized tells
    have large := program.two_lt_frameSize
    have inFrame := Program.groupEnd_lt_slotCount inGroups
    have last : program.frameSize = program.slotCount + program.counters + 1 := rfl
    have keeps : Waypoint.resumed.renews group = false := rfl
    constructor
    · intro unclosed straight
      obtain ⟨_, unclosedBefore⟩ := unclosed_of_not_renews keeps unclosed
      have other : group ≠ 0 :=
        straight.resolve_right fun straight => (straight_of_not_renews keeps straight).1 rfl
      rw [Memory.getElem?_frame sized large, if_neg (by omega), if_neg (by omega)]
      exact tells.stop unclosedBefore (.inl other)
    · rintro ⟨waypoint, found, clears⟩
      rw [List.find?_cons_of_neg (by simp [keeps])] at found
      rw [Memory.getElem?_frame sized large, if_neg (by omega), if_neg (by omega)]
      exact tells.start ⟨waypoint, found, clears⟩

/-- Where an attempt begins, no group has an end. -/
theorem Path.tells_initial (inGroups : group < program.captures) :
    Path.Tells group []
      ((Array.replicate program.frameSize unset).setIfInBounds 0 (start : Int)) := by
  have inFrame := Program.groupEnd_lt_frameSize inGroups
  constructor
  · intro _ _
    rw [Array.getElem?_setIfInBounds_ne (by omega), Array.getElem?_replicate, if_pos inFrame]
  · rintro ⟨_, ⟨⟩, _⟩

/-- A back reference to a group that its path has not closed since it was last opened or cleared
matches the empty text, whether or not the program has the group. For the whole match this needs
that no frame was resumed since, or that the group was cleared last: the position in a frame that
is resumed stays behind as the end of group 0. -/
theorem Thread.History.backReference_unclosed (program : Program) (subject : Array α)
    (limit : StackLimit) (start : Nat) (thread : Thread) (path : Path) (saved : List Path)
    (group : UInt16)
    (ignoreCase : Bool) (history : History program subject limit start thread path saved)
    (fetched : program.fetch thread.pc = some (.backReference group ignoreCase))
    (unclosed : path.Unclosed group.toNat)
    (undisturbed : group.toNat ≠ 0 ∨ path.Straight group.toNat ∨ path.Cleared group.toNat) :
    thread.step program subject limit =
      .running ⟨thread.pc + 3, thread.position, thread.memory⟩ := by
  have empty : thread.memory.group? program.captures group.toNat = .ok none := by
    by_cases inGroups : group.toNat < program.captures
    · obtain ⟨sized, tells, _⟩ :=
        (Path.tells_invariant inGroups).holdsAlong (Path.tells_initial inGroups) history
      have inFrame := Program.groupEnd_lt_frameSize inGroups
      rw [← sized] at inFrame
      rw [Memory.group?_eq_ok inGroups (Array.getElem?_eq_getElem (Nat.lt_of_succ_lt inFrame))
        (Array.getElem?_eq_getElem inFrame), if_pos]
      rcases or_assoc.mpr undisturbed with straight | cleared
      · exact .inr (.inl (Array.getElem_eq_iff.mpr (tells.stop unclosed straight)))
      · exact .inl (Array.getElem_eq_iff.mpr (tells.start cleared))
    · exact if_pos (Nat.le_of_not_lt inGroups)
  rw [step_of_fetch fetched]
  simp only [execute, backReference, empty]
  rfl

/-- A group that was closed on an alternative has the empty text once the alternative has failed. -/
theorem Thread.History.backReference_unclosed_abandoned :
    ∃ program, Program.ofBytes [16, 18, 0, 0, 0, 11, 1, 0, 0, 0, 19, 97, 12, 1, 0, 0, 0, 28,
        17, 1, 0, 29] 2 0 = .ok program ∧
      ∃ thread, History program (#[97] : Array UInt8) Matcher.default.limit 0 thread
          [.resumed, .executed (.pushBacktrack 18)] [] ∧
        thread.pc = 18 ∧ thread.position = 0 ∧
        thread.step program (#[97] : Array UInt8) Matcher.default.limit =
          .running ⟨21, 0, thread.memory⟩ := by
  have runs : ((Program.ofBytes [16, 18, 0, 0, 0, 11, 1, 0, 0, 0, 19, 97, 12, 1, 0, 0, 0, 28,
      17, 1, 0, 29] 2 0).toOption.map fun program => decide (
        Thread.initial program 0 .empty = .ok ⟨0, 0, ⟨#[0, -1, -1, -1, -1], #[]⟩⟩ ∧
        Thread.track program (#[97] : Array UInt8) Matcher.default.limit 5
            ⟨0, 0, ⟨#[0, -1, -1, -1, -1], #[]⟩⟩ [] [] =
          some (⟨18, 0, ⟨#[0, 0, -1, -1, 18], #[]⟩⟩,
            [.resumed, .executed (.pushBacktrack 18)], []) ∧
        program.fetch 18 = some (.backReference 1 false))) = some true := by
    decide +kernel
  obtain ⟨program, accepted, begins, tracked, fetched⟩ := exists_ok_of_decide runs
  have history := (History.start begins).of_track tracked
  exact ⟨program, accepted, _, history, rfl, rfl,
    backReference_unclosed _ _ _ _ _ _ _ 1 false history fetched (by decide) (.inl (by decide))⟩

/-- The whole match has no end yet, but where it begins before the position in a frame that was
resumed it has the text in between. A back reference to it fails then, and does not match the empty
text. -/
theorem Thread.History.backReference_whole_match_resumed :
    ∃ program, Program.ofBytes [19, 97, 16, 8, 0, 0, 0, 28, 17, 0, 0, 29] 1 0 = .ok program ∧
      ∃ thread path,
        History program (#[97, 98] : Array UInt8) Matcher.default.limit 0 thread path [] ∧
        program.fetch thread.pc = some (.backReference 0 false) ∧
        (∀ waypoint ∈ path, waypoint.closes 0 = false) ∧ path.Unclosed 0 ∧
        thread.step program (#[97, 98] : Array UInt8) Matcher.default.limit =
          .ended .unmatched thread.memory := by
  have runs : ((Program.ofBytes [19, 97, 16, 8, 0, 0, 0, 28, 17, 0, 0, 29] 1
      0).toOption.map fun program => decide (
        Thread.initial program 0 .empty = .ok ⟨0, 0, ⟨#[0, -1, -1], #[]⟩⟩ ∧
        Thread.track program (#[97, 98] : Array UInt8) Matcher.default.limit 3
            ⟨0, 0, ⟨#[0, -1, -1], #[]⟩⟩ [] [] =
          some (⟨8, 1, ⟨#[0, 1, 8], #[]⟩⟩,
            [.resumed, .executed (.pushBacktrack 8), .executed (.checkByte 97)], []) ∧
        program.fetch 8 = some (.backReference 0 false) ∧
        (⟨8, 1, ⟨#[0, 1, 8], #[]⟩⟩ : Thread).step program (#[97, 98] : Array UInt8)
            Matcher.default.limit =
          .ended .unmatched ⟨#[0, 1, 8], #[]⟩)) = some true := by
    decide +kernel
  obtain ⟨program, accepted, begins, tracked, fetched, fails⟩ := exists_ok_of_decide runs
  exact ⟨program, accepted, _, _, (History.start begins).of_track tracked, fetched, by decide,
    by decide, fails⟩

end

end RegexMachine
