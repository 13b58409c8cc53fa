import RegexMachine.Thread

/-!
# Ordered choice without a stack

The meaning of programs by leftmost-first choice. `Program.move?` says what an instruction does
to an offset, a position and the contents of the slots, and `Evaluates` is the big-step relation
over it: a choice evaluates its first branch, and only if that fails its second one with the
same position and slots. There are no frames, and nothing is copied or restored.
-/

namespace RegexMachine

variable {α : Type} [CodeUnit α]

/-- The contents of the ends of groups and of the scratch slots, by cell. -/
abbrev Slots := Nat → Int

namespace Slots

/-- The contents that an attempt begins with: only the start of group 0 is set. -/
def initial (start : Nat) : Slots :=
  fun cell => if cell = 0 then start else unset

/-- The contents with one cell set. -/
def set (slots : Slots) (cell : Nat) (content : Int) : Slots :=
  fun other => if other = cell then content else slots other

/-- The contents with the cells from `first` up to, not including, `stop` unset. -/
def clear (slots : Slots) (first stop : Nat) : Slots :=
  fun cell => if first ≤ cell ∧ cell < stop then unset else slots cell

/-- The text of a group, if both its ends are set and in order. -/
def group? (slots : Slots) (captures group : Nat) : Option Span :=
  if captures ≤ group then none
  else if slots (2 * group) = unset ∨ slots (2 * group + 1) = unset ∨
      slots (2 * group + 1) < slots (2 * group) then none
  else some ⟨(slots (2 * group)).toNat, (slots (2 * group + 1)).toNat⟩

/-- The ends of the groups after a match that ends at a position. -/
def ends (slots : Slots) (captures position : Nat) : Array Int :=
  (Array.range (2 * captures)).map (slots.set 1 position)

end Slots

/-- What an instruction does where it stands. -/
inductive Move where
  /-- Go on with an offset, a position and slots. -/
  | advance (pc position : Nat) (slots : Slots)
  | fail
  | succeed
  /-- Try an offset, and another one if that fails. -/
  | choose (first second : Nat)

namespace Move

/-- Go on behind some units if a test was passed, and fail otherwise. -/
def advanceIf (passed : Bool) (pc position units : Nat) (slots : Slots) : Move :=
  if passed then .advance pc (position + units) slots else .fail

end Move

/-- Whether an anchor holds at a position. It does not where it can not be tested. -/
def Anchor.isMet (subject : Array α) (position : Nat) (anchor : Anchor) : Bool :=
  match anchor.holds subject position with
  | .ok held => held
  | .error _ => false

/-- What a program does at an offset. The instructions that read the depth of the stack or cut
it have no meaning here. -/
def Program.move? (program : Program) (subject : Array α) (pc position : Nat) (slots : Slots) :
    Option Move :=
  match program.fetch pc with
  | none => none
  | some instruction =>
    let next := pc + instruction.length
    let scratch := program.slotCount
    let check (test : UInt16 → Bool) : Option Move :=
      some (.advanceIf (Thread.unitPasses subject position test) next position 1 slots)
    match instruction with
    | .storeSp _ | .assertionSuccess .. | .assertionFailure _ => none
    | .storePosition slot =>
      some (.advance next position (slots.set (scratch + slot.toNat) position))
    | .positionTest slot =>
      some (.advanceIf (slots (scratch + slot.toNat) != position) next position 0 slots)
    | .assertion anchor =>
      some (.advanceIf (anchor.isMet subject position) next position 0 slots)
    | .startCapture group =>
      some (.advance next position
        ((slots.set (2 * group.toNat) position).set (2 * group.toNat + 1) unset))
    | .endCapture group =>
      some (.advance next position (slots.set (2 * group.toNat + 1) position))
    | .clearCaptures first stop =>
      some (.advance next position (slots.clear (2 * first.toNat) (2 * stop.toNat)))
    | .counterZero slot => some (.advance next position (slots.set (scratch + slot.toNat) 0))
    | .counterNext slot max target =>
      let counter := min (slots (scratch + slot.toNat) + 1) (maxSlot : Int)
      some (.advance (if counter < max.toNat then target.toNat else next) position
        (slots.set (scratch + slot.toNat) counter))
    | .pushBacktrack target => some (.choose next target.toNat)
    | .backReference group ignoreCase =>
      match slots.group? program.captures group.toNat with
      | none => some (.advance next position slots)
      | some text =>
        let length := text.stop - text.start
        some (.advanceIf (repeatsAt ignoreCase subject position text.start length) next position
          length slots)
    | .checkByte unit => check (· == unit.toUInt16)
    | .checkUnit unit => check (· == unit)
    | .checkAny units => check fun unit => units.contains unit
    | .checkRange ranges _ inverted => check fun unit => UnitRange.anyHolds ranges unit != inverted
    | .checkLiteral units =>
      some (.advanceIf (literalAt program.ignoreCase subject position units) next position
        units.length slots)
    | .jump target => some (.advance target.toNat position slots)
    | .failure => some .fail
    | .success => some .succeed

/-- A choice tries what follows it, and then its target. -/
theorem Program.move?_pushBacktrack {program : Program} {subject : Array α} {pc position : Nat}
    {slots : Slots} {target : UInt32} (fetched : program.fetch pc = some (.pushBacktrack target)) :
    program.move? subject pc position slots = some (.choose (pc + 5) target.toNat) := by
  rw [move?, fetched]
  rfl

/-- What a program evaluates to. -/
inductive Verdict where
  /-- A match with these ends of the groups. -/
  | matched (ends : Array Int)
  | failed
  deriving DecidableEq, Repr

/-- The verdict of a program from an offset, a position and slots. Where the program goes on
for ever there is none. -/
inductive Evaluates (program : Program) (subject : Array α) :
    Nat → Nat → Slots → Verdict → Prop where
  | advance {pc position next further : Nat} {slots later : Slots} {verdict : Verdict}
      (moves : program.move? subject pc position slots = some (.advance next further later))
      (rest : Evaluates program subject next further later verdict) :
      Evaluates program subject pc position slots verdict
  | fail {pc position : Nat} {slots : Slots}
      (moves : program.move? subject pc position slots = some .fail) :
      Evaluates program subject pc position slots .failed
  | succeed {pc position : Nat} {slots : Slots}
      (moves : program.move? subject pc position slots = some .succeed) :
      Evaluates program subject pc position slots
        (.matched (slots.ends program.captures position))
  | first {pc position first second : Nat} {slots : Slots} {ends : Array Int}
      (moves : program.move? subject pc position slots = some (.choose first second))
      (chosen : Evaluates program subject first position slots (.matched ends)) :
      Evaluates program subject pc position slots (.matched ends)
  | second {pc position first second : Nat} {slots : Slots} {verdict : Verdict}
      (moves : program.move? subject pc position slots = some (.choose first second))
      (refused : Evaluates program subject first position slots .failed)
      (chosen : Evaluates program subject second position slots verdict) :
      Evaluates program subject pc position slots verdict

namespace Evaluates

variable {program : Program} {subject : Array α} {pc position : Nat} {slots : Slots}
  {verdict : Verdict}

/-- An instruction that goes on has the verdict of where it goes. -/
theorem advance_iff {next further : Nat} {later : Slots}
    (moves : program.move? subject pc position slots = some (.advance next further later)) :
    Evaluates program subject pc position slots verdict ↔
      Evaluates program subject next further later verdict := by
  constructor
  · rintro (⟨moved, rest⟩ | moved | moved | ⟨moved, _⟩ | ⟨moved, _, _⟩)
    all_goals cases moves.symm.trans moved
    exact rest
  · exact .advance moves

/-- An instruction that fails has only that verdict. -/
theorem fail_iff (moves : program.move? subject pc position slots = some .fail) :
    Evaluates program subject pc position slots verdict ↔ verdict = .failed := by
  constructor
  · rintro (⟨moved, _⟩ | moved | moved | ⟨moved, _⟩ | ⟨moved, _, _⟩)
    all_goals cases moves.symm.trans moved
    rfl
  · rintro rfl
    exact .fail moves

/-- An instruction that succeeds has only the verdict of a match that ends here. -/
theorem succeed_iff (moves : program.move? subject pc position slots = some .succeed) :
    Evaluates program subject pc position slots verdict ↔
      verdict = .matched (slots.ends program.captures position) := by
  constructor
  · rintro (⟨moved, _⟩ | moved | moved | ⟨moved, _⟩ | ⟨moved, _, _⟩)
    all_goals cases moves.symm.trans moved
    rfl
  · rintro rfl
    exact .succeed moves

/-- A choice has the verdict of its first branch if that is a match, and the verdict of its
second branch if the first one fails. -/
theorem choose_iff {first second : Nat}
    (moves : program.move? subject pc position slots = some (.choose first second)) :
    Evaluates program subject pc position slots verdict ↔
      (∃ ends, verdict = .matched ends ∧
        Evaluates program subject first position slots (.matched ends)) ∨
      Evaluates program subject first position slots .failed ∧
        Evaluates program subject second position slots verdict := by
  constructor
  · rintro (⟨moved, _⟩ | moved | moved | ⟨moved, chosen⟩ | ⟨moved, refused, chosen⟩)
    all_goals cases moves.symm.trans moved
    · exact .inl ⟨_, rfl, chosen⟩
    · exact .inr ⟨refused, chosen⟩
  · rintro (⟨ends, rfl, chosen⟩ | ⟨refused, chosen⟩)
    · exact .first moves chosen
    · exact .second moves refused chosen

/-- There is at most one verdict. -/
theorem unique (evaluates : Evaluates program subject pc position slots verdict)
    {other : Verdict} (again : Evaluates program subject pc position slots other) :
    verdict = other := by
  induction evaluates generalizing other with
  | advance moves _ inductionHypothesis =>
    exact inductionHypothesis ((advance_iff moves).mp again)
  | fail moves => exact ((fail_iff moves).mp again).symm
  | succeed moves => exact ((succeed_iff moves).mp again).symm
  | first moves _ inductionHypothesis =>
    rcases (choose_iff moves).mp again with ⟨ends, rfl, chosen⟩ | ⟨refused, _⟩
    · exact inductionHypothesis chosen
    · exact Verdict.noConfusion (inductionHypothesis refused)
  | second moves _ _ refusedHypothesis chosenHypothesis =>
    rcases (choose_iff moves).mp again with ⟨ends, rfl, chosen⟩ | ⟨_, chosen⟩
    · exact Verdict.noConfusion (refusedHypothesis chosen)
    · exact chosenHypothesis chosen

end Evaluates

end RegexMachine
