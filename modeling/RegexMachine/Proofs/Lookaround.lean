import RegexMachine.Proofs.Inversion
import RegexMachine.Proofs.Safety

/-!
# Look-around blocks

A look-around is compiled into a region of the program: it saves the depth of the stack in a
scratch slot, pushes a frame that resumes at the alternative, its guard, and runs its body. The
last instruction cuts the stack back to the saved depth. `IsLookaround` says which regions are
such blocks, with blocks nested in their bodies.

Every thread that an attempt reaches within a block has the guard of the block on its stack, at
the depth that the slot of the block holds, and all frames above the guard resume within the
block (`Thread.Reachable.settled`). Failures bring back older states, so the frames have to
remember as much of the blocks that they resume in.
-/

namespace RegexMachine

variable {α : Type} [CodeUnit α]

/-- Whether an instruction saves the depth of the stack or cuts the stack to a saved depth. -/
def Instruction.usesDepth {Target : Type} : Instruction Target → Bool
  | .storeSp _ | .assertionSuccess .. | .assertionFailure _ => true
  | _ => false

/-- The outline of a look-around in a program. -/
structure Lookaround where
  /-- The offset of the first instruction, which saves the depth of the stack. -/
  enter : Nat
  /-- The offset of the last instruction, which cuts the stack to the saved depth. -/
  leave : Nat
  /-- The scratch slot that holds the depth. -/
  slot : UInt32
  /-- The offset at which the guard resumes when the body has failed. -/
  alternative : UInt32
  /-- The offset at which the run goes on when the body has matched. A negative look-around has
  none: it fails. -/
  continuation : Option UInt32

namespace Lookaround

/-- An offset in the region of a block. -/
def Contains (block : Lookaround) (pc : Nat) : Prop :=
  block.enter ≤ pc ∧ pc ≤ block.leave

/-- An offset in the body of a block, which begins behind the push of the guard. -/
def InBody (block : Lookaround) (pc : Nat) : Prop :=
  block.enter + 10 ≤ pc ∧ pc < block.leave

/-- An offset in the body of a block or at its last instruction. -/
def Inside (block : Lookaround) (pc : Nat) : Prop :=
  block.enter + 10 ≤ pc ∧ pc ≤ block.leave

/-- A block in the body of another one. -/
def Within (inner outer : Lookaround) : Prop :=
  outer.enter + 10 ≤ inner.enter ∧ inner.leave < outer.leave

/-- The last instruction of a block. -/
def leaving (block : Lookaround) : Instruction UInt32 :=
  match block.continuation with
  | some target => .assertionSuccess block.slot target
  | none => .assertionFailure block.slot

/-- What a region of a program has to satisfy to be a look-around, apart from the look-arounds in
its body. -/
structure IsRegion (program : Program) (block : Lookaround) : Prop where
  saves : program.fetch block.enter = some (.storeSp block.slot)
  pushes : program.fetch (block.enter + 5) = some (.pushBacktrack block.alternative)
  cuts : program.fetch block.leave = some block.leaving
  ordered : block.enter + 10 ≤ block.leave
  /-- Both ways out lead out of the region. -/
  alternative : ¬ block.Contains block.alternative.toNat
  continuation : ∀ target, block.continuation = some target → ¬ block.Contains target.toNat
  /-- Control enters at the first instruction only. -/
  entered : ∀ pc instruction next, program.fetch pc = some instruction → ¬ block.Contains pc →
    instruction.Leads pc next → block.Contains next → next = block.enter
  /-- Control stays in the body or goes to the last instruction. -/
  closed : ∀ pc instruction next, program.fetch pc = some instruction → block.InBody pc →
    instruction.Leads pc next → block.Inside next
  /-- The body reports no match. -/
  undecided : ∀ pc, block.InBody pc → program.fetch pc ≠ some .success
  /-- The body does not write the slot of the block. -/
  unwritten : ∀ pc instruction, program.fetch pc = some instruction → block.InBody pc →
    instruction.writtenSlot? ≠ some block.slot

end Lookaround

/-- Look-around blocks: regions in which every instruction of the body that uses the depth of the
stack belongs to a nested block for another slot. The ways out of a nested block are targets in
the body, so they do not leave it. -/
inductive IsLookaround (program : Program) : Lookaround → Prop where
  | intro {block : Lookaround} (inner : List Lookaround) (region : block.IsRegion program)
      (within : ∀ nested ∈ inner, nested.Within block)
      (apart : ∀ nested ∈ inner, nested.slot ≠ block.slot)
      (blocks : ∀ nested ∈ inner, IsLookaround program nested)
      (belongs : ∀ pc instruction, program.fetch pc = some instruction → block.InBody pc →
        instruction.usesDepth = true → ∃ nested ∈ inner, nested.Contains pc) :
      IsLookaround program block

/-- A look-around block is a region. -/
theorem IsLookaround.region {program : Program} {block : Lookaround}
    (isBlock : IsLookaround program block) : block.IsRegion program := by
  cases isBlock with
  | intro _ region => exact region

namespace Lookaround

instance (block : Lookaround) : DecidablePred block.Contains :=
  fun pc => inferInstanceAs (Decidable (block.enter ≤ pc ∧ pc ≤ block.leave))

instance (block : Lookaround) : DecidablePred block.InBody :=
  fun pc => inferInstanceAs (Decidable (block.enter + 10 ≤ pc ∧ pc < block.leave))

instance (block : Lookaround) : DecidablePred block.Inside :=
  fun pc => inferInstanceAs (Decidable (block.enter + 10 ≤ pc ∧ pc ≤ block.leave))

/-- A region is checked entry by entry. -/
theorem isRegion_iff {program : Program} {block : Lookaround} :
    block.IsRegion program ↔
      (program.fetch block.enter = some (.storeSp block.slot) ∧
        program.fetch (block.enter + 5) = some (.pushBacktrack block.alternative) ∧
        program.fetch block.leave = some block.leaving ∧ block.enter + 10 ≤ block.leave ∧
        ¬ block.Contains block.alternative.toNat ∧
        ∀ target ∈ block.continuation.map UInt32.toNat, ¬ block.Contains target) ∧
      ∀ entry ∈ program.entries,
        (¬ block.Contains entry.pc → ∀ next ∈ entry.instruction.successors entry.pc,
          block.Contains next → next = block.enter) ∧
        (block.InBody entry.pc →
          (∀ next ∈ entry.instruction.successors entry.pc, block.Inside next) ∧
            entry.instruction ≠ .success ∧
            entry.instruction.writtenSlot? ≠ some block.slot) := by
  constructor
  · intro region
    refine ⟨⟨region.saves, region.pushes, region.cuts, region.ordered, region.alternative, ?_⟩, ?_⟩
    · intro target member
      obtain ⟨word, isTarget, rfl⟩ := Option.map_eq_some_iff.mp member
      exact region.continuation word isTarget
    intro entry member
    have fetched := Program.fetch_eq_some_iff.mpr member
    refine ⟨?_, fun inBody => ⟨?_, ?_, region.unwritten _ _ fetched inBody⟩⟩
    · intro outside next leads
      exact region.entered _ _ _ fetched outside (Instruction.mem_successors_iff.mp leads)
    · intro next leads
      exact region.closed _ _ _ fetched inBody (Instruction.mem_successors_iff.mp leads)
    · intro reports
      rw [reports] at fetched
      exact region.undecided _ inBody fetched
  · rintro ⟨⟨saves, pushes, cuts, ordered, alternative, continuation⟩, entries⟩
    refine ⟨saves, pushes, cuts, ordered, alternative, ?_, ?_, ?_, ?_, ?_⟩
    · intro target isTarget
      exact continuation _ (Option.map_eq_some_iff.mpr ⟨target, isTarget, rfl⟩)
    · intro pc instruction next fetched outside leads
      exact (entries _ (Program.fetch_eq_some_iff.mp fetched)).1 outside next
        (Instruction.mem_successors_iff.mpr leads)
    · intro pc instruction next fetched inBody leads
      exact ((entries _ (Program.fetch_eq_some_iff.mp fetched)).2 inBody).1 next
        (Instruction.mem_successors_iff.mpr leads)
    · intro pc inBody fetched
      exact ((entries _ (Program.fetch_eq_some_iff.mp fetched)).2 inBody).2.1 rfl
    · intro pc instruction fetched inBody
      exact ((entries _ (Program.fetch_eq_some_iff.mp fetched)).2 inBody).2.2

instance (program : Program) (block : Lookaround) : Decidable (block.IsRegion program) :=
  decidable_of_iff _ isRegion_iff.symm

variable {program : Program} {block inner outer : Lookaround} {pc next : Nat}
  {instruction : Instruction UInt32}

/-- Offsets behind the push of the guard are in the region. -/
theorem Inside.contains (inside : block.Inside pc) : block.Contains pc :=
  ⟨by have := inside.1; omega, inside.2⟩

/-- Offsets in the body are behind the push of the guard. -/
theorem InBody.inside (inBody : block.InBody pc) : block.Inside pc :=
  ⟨inBody.1, Nat.le_of_lt inBody.2⟩

/-- What is inside a nested block is in the body of the outer one. -/
theorem Within.inBody (within : inner.Within outer) (contains : inner.Contains pc) :
    outer.InBody pc :=
  ⟨Nat.le_trans within.1 contains.1, Nat.lt_of_le_of_lt contains.2 within.2⟩

/-- A block in the body of a nested block is in the body of the outer one. -/
theorem Within.trans {innermost : Lookaround} (below : innermost.Within inner)
    (within : inner.Within outer) : innermost.Within outer := by
  unfold Within at *
  omega

/-- The last instruction of a block uses its slot. -/
theorem slot?_leaving (block : Lookaround) : block.leaving.slot? = some block.slot := by
  rw [leaving]
  split <;> rfl

/-- The last instruction of a block leads to the continuation, if at all. -/
theorem exists_continuation_of_leads (leads : block.leaving.Leads pc next) :
    ∃ target, block.continuation = some target ∧ next = target.toNat := by
  rw [leaving] at leads
  split at leads
  · rename_i target isTarget
    cases leads with
    | next continues => contradiction
    | target jumps =>
      obtain rfl := Option.some.inj jumps
      exact ⟨_, isTarget, rfl⟩
  · cases leads <;> contradiction

namespace IsRegion

variable (region : block.IsRegion program)
include region

/-- The slot of a block is a scratch slot of the program. -/
theorem slot_lt_counters : block.slot.toNat < program.counters :=
  Program.slot_lt_counters region.saves rfl

/-- The instructions of a region are its first two, those of the body and the last. -/
theorem place_of_contains (fetched : program.fetch pc = some instruction)
    (contains : block.Contains pc) :
    pc = block.enter ∧ instruction = .storeSp block.slot ∨
      pc = block.enter + 5 ∧ instruction = .pushBacktrack block.alternative ∨
      block.InBody pc ∨ pc = block.leave ∧ instruction = block.leaving := by
  obtain ⟨atLeast, atMost⟩ := contains
  have behindFirst : block.enter < pc → block.enter + 5 ≤ pc :=
    Program.end_le_of_fetch region.saves fetched
  have behindSecond : block.enter + 5 < pc → block.enter + 10 ≤ pc :=
    Program.end_le_of_fetch region.pushes fetched
  have places : pc = block.enter ∨ pc = block.enter + 5 ∨ block.InBody pc ∨ pc = block.leave := by
    unfold InBody
    omega
  rcases places with rfl | rfl | inBody | rfl
  · exact .inl ⟨rfl, Option.some.inj (fetched.symm.trans region.saves)⟩
  · exact .inr (.inl ⟨rfl, Option.some.inj (fetched.symm.trans region.pushes)⟩)
  · exact .inr (.inr (.inl inBody))
  · exact .inr (.inr (.inr ⟨rfl, Option.some.inj (fetched.symm.trans region.cuts)⟩))

/-- What leads to an offset behind the push of the guard is this push or in the body. -/
theorem of_leads_inside (fetched : program.fetch pc = some instruction)
    (leads : instruction.Leads pc next) (inside : block.Inside next) :
    pc = block.enter + 5 ∧ instruction = .pushBacktrack block.alternative ∨ block.InBody pc := by
  by_cases contains : block.Contains pc
  · rcases region.place_of_contains fetched contains with
      ⟨rfl, rfl⟩ | second | inBody | ⟨rfl, rfl⟩
    · -- The first instruction leads to the second only.
      obtain ⟨atLeast, _⟩ := inside
      cases leads with
      | next =>
        simp only [Instruction.length] at atLeast
        omega
      | target jumps => contradiction
    · exact .inl second
    · exact .inr inBody
    · obtain ⟨target, isTarget, rfl⟩ := exists_continuation_of_leads leads
      exact absurd inside.contains (region.continuation target isTarget)
  · have first := region.entered pc instruction next fetched contains leads inside.contains
    obtain ⟨atLeast, _⟩ := inside
    omega

/-- Only the first instruction leads to the push of the guard. -/
theorem of_leads_second (fetched : program.fetch pc = some instruction)
    (leads : instruction.Leads pc next) (second : next = block.enter + 5) :
    pc = block.enter ∧ instruction = .storeSp block.slot := by
  have ordered := region.ordered
  have contained : block.Contains next := ⟨by omega, by omega⟩
  by_cases contains : block.Contains pc
  · rcases region.place_of_contains fetched contains with
      first | ⟨rfl, rfl⟩ | inBody | ⟨rfl, rfl⟩
    · exact first
    · cases leads with
      | next =>
        simp only [Instruction.length] at second
        omega
      | target jumps =>
        obtain rfl := Option.some.inj jumps
        exact absurd contained region.alternative
    · obtain ⟨atLeast, _⟩ := region.closed pc instruction _ fetched inBody leads
      omega
    · obtain ⟨target, isTarget, rfl⟩ := exists_continuation_of_leads leads
      exact absurd contained (region.continuation target isTarget)
  · have first := region.entered pc instruction _ fetched contains leads contained
    omega

end IsRegion

end Lookaround

/-- An instruction in the body of a block that cuts the stack is the last one of a nested block,
at whatever depth of nesting. -/
theorem IsLookaround.exists_leave {program : Program} {block : Lookaround}
    (isBlock : IsLookaround program block) {pc : Nat} {instruction : Instruction UInt32}
    {slot : UInt32} (fetched : program.fetch pc = some instruction) (inBody : block.InBody pc)
    (cuts : instruction.leavesLookaround = true) (uses : instruction.slot? = some slot) :
    ∃ inner, IsLookaround program inner ∧ inner.Within block ∧ inner.leave = pc ∧
      inner.slot = slot := by
  induction isBlock with
  | @intro block inner region within apart blocks belongs inductionHypothesis =>
    have usesDepth : instruction.usesDepth = true := by cases instruction <;> trivial
    obtain ⟨nested, member, contains⟩ := belongs pc instruction fetched inBody usesDepth
    have nestedRegion := (blocks nested member).region
    rcases nestedRegion.place_of_contains fetched contains with
      ⟨_, rfl⟩ | ⟨_, rfl⟩ | inNested | ⟨rfl, rfl⟩
    · contradiction
    · contradiction
    · obtain ⟨innermost, isInnermost, below, place, same⟩ :=
        inductionHypothesis nested member inNested
      exact ⟨innermost, isInnermost, below.trans (within nested member), place, same⟩
    · rw [nested.slot?_leaving] at uses
      exact ⟨nested, blocks nested member, within nested member, rfl, Option.some.inj uses⟩

/-- A frame that resumes at an offset. -/
def ResumesAt (program : Program) (frame : Array Int) (pc : Nat) : Prop :=
  frame[program.frameSize - 1]? = some (pc : Int)

/-- A frame resumes at one offset only. -/
theorem ResumesAt.unique {program : Program} {frame : Array Int} {first second : Nat}
    (atFirst : ResumesAt program frame first) (atSecond : ResumesAt program frame second) :
    first = second := by
  have same := Option.some.inj (Eq.trans (Eq.symm atFirst) atSecond)
  omega

namespace Lookaround

variable {program : Program} {block inner outer : Lookaround} {guard : Array Int}
  {below frames : List (Array Int)}

/-- Frames of a block: its guard lies on the frames below, and the frames above the guard resume
within the block. -/
inductive Guards (program : Program) (block : Lookaround) (guard : Array Int)
    (below : List (Array Int)) : List (Array Int) → Prop where
  | base (resumes : ResumesAt program guard block.alternative.toNat) :
      Guards program block guard below (guard :: below)
  | above {frames : List (Array Int)} {frame : Array Int} {pc : Nat}
      (rest : Guards program block guard below frames) (resumes : ResumesAt program frame pc)
      (inside : block.Inside pc) : Guards program block guard below (frame :: frames)

/-- The guard lies on the frames below, under the frames above it. -/
theorem Guards.exists_above (guards : block.Guards program guard below frames) :
    ∃ above, frames = above ++ guard :: below := by
  induction guards with
  | base => exact ⟨[], rfl⟩
  | @above frames frame pc rest resumes inside inductionHypothesis =>
    obtain ⟨frames, rfl⟩ := inductionHypothesis
    exact ⟨frame :: frames, rfl⟩

/-- A block has one guard only: the newest frame that resumes outside. -/
theorem Guards.unique (region : block.IsRegion program)
    (guards : block.Guards program guard below frames) {otherGuard : Array Int}
    {otherBelow : List (Array Int)}
    (others : block.Guards program otherGuard otherBelow frames) :
    guard = otherGuard ∧ below = otherBelow := by
  induction guards with
  | base resumes =>
    cases others with
    | base => exact ⟨rfl, rfl⟩
    | above _ atInside inside =>
      rw [← resumes.unique atInside] at inside
      exact absurd inside.contains region.alternative
  | above rest resumes inside inductionHypothesis =>
    cases others with
    | base atOutside =>
      rw [resumes.unique atOutside] at inside
      exact absurd inside.contains region.alternative
    | above others => exact inductionHypothesis others

/-- The guard of a block lies below that of a block in its body. -/
theorem Guards.of_nested (outerRegion : outer.IsRegion program)
    (innerRegion : inner.IsRegion program)
    (within : inner.Within outer) {innerGuard : Array Int} {innerBelow : List (Array Int)}
    (guards : outer.Guards program guard below frames)
    (innerGuards : inner.Guards program innerGuard innerBelow frames) :
    outer.Guards program guard below innerBelow := by
  have ordered := innerRegion.ordered
  induction innerGuards with
  | base resumes =>
    cases guards with
    | above rest => exact rest
    | base atOutside =>
      -- The alternative of the inner block is in the outer one, its own is not.
      have second : inner.Contains (inner.enter + 5) := ⟨by omega, by omega⟩
      have pushInBody := within.inBody second
      have inside := outerRegion.closed _ _ _ innerRegion.pushes pushInBody (.target rfl)
      rw [resumes.unique atOutside] at inside
      exact absurd inside.contains outerRegion.alternative
  | above rest resumes inside inductionHypothesis =>
    cases guards with
    | above outerRest => exact inductionHypothesis outerRest
    | base atOutside =>
      have inBody := within.inBody inside.contains
      rw [resumes.unique atOutside] at inBody
      exact absurd inBody.inside.contains outerRegion.alternative

/-- A stack cut to the depth below the guard holds the frames below the guard. -/
theorem Guards.drop (guards : block.Guards program guard below frames) :
    frames.drop (frames.length - below.length) = below := by
  obtain ⟨above, rfl⟩ := guards.exists_above
  rw [List.append_cons]
  have behind : (above ++ [guard] ++ below).length - below.length = (above ++ [guard]).length := by
    rw [List.length_append, Nat.add_sub_cancel]
  rw [behind, List.drop_left]

/-- The slot of a block holds the depth below the guard of the block. -/
def Guarded (program : Program) (block : Lookaround) (cells : Array Int)
    (frames : List (Array Int)) : Prop :=
  ∃ guard below, block.Guards program guard below frames ∧
    cells[program.slotCount + block.slot.toNat]? = some (below.length : Int)

end Lookaround

/-- What a thread at an offset has prepared for the blocks that the offset is in: at the push of
the guard the depth in the slot is that of the stack, and behind it the guard is on the stack. -/
structure Prepared (program : Program) (pc : Nat) (cells : Array Int) (frames : List (Array Int)) :
    Prop where
  saved : ∀ block, IsLookaround program block → pc = block.enter + 5 →
    cells[program.slotCount + block.slot.toNat]? = some (frames.length : Int)
  guarded : ∀ block, IsLookaround program block → block.Inside pc →
    block.Guarded program cells frames

/-- A stack on which every frame has prepared, with the frames below it, for the offset that it
resumes at. -/
inductive Tidy (program : Program) : List (Array Int) → Prop where
  | nil : Tidy program []
  | cons {frame : Array Int} {below : List (Array Int)} {pc : Nat} (older : Tidy program below)
      (resumes : ResumesAt program frame pc) (prepared : Prepared program pc frame below) :
      Tidy program (frame :: below)

/-- Older frames stay tidy. -/
theorem Tidy.drop {program : Program} {frames : List (Array Int)} (tidy : Tidy program frames)
    (count : Nat) : Tidy program (frames.drop count) := by
  induction tidy generalizing count with
  | nil =>
    rw [List.drop_nil]
    exact .nil
  | cons older resumes prepared inductionHypothesis =>
    cases count with
    | zero => exact .cons older resumes prepared
    | succ count => exact inductionHypothesis count

/-- A thread with a tidy stack that has prepared for its offset. -/
structure Thread.Settled (program : Program) (thread : Thread) : Prop where
  sized : thread.memory.state.size = program.frameSize
  stack : ∃ frames, Stacked program.frameSize thread.memory.stack frames ∧ Tidy program frames ∧
    Prepared program thread.pc thread.memory.state frames

namespace Prepared

variable {program : Program} {thread : Thread} {frames : List (Array Int)}

/-- An instruction that leaves the stack alone keeps what is prepared. -/
theorem goOn (prepared : Prepared program thread.pc thread.memory.state frames)
    (sized : thread.memory.state.size = program.frameSize)
    (depth : thread.memory.depth program.frameSize = frames.length)
    {instruction : Instruction UInt32} {next : Nat}
    (fetched : program.fetch thread.pc = some instruction)
    (keeps : instruction.movesStack = false) (leads : instruction.Leads thread.pc next) :
    Prepared program next (thread.updated program instruction) frames where
  saved := by
    intro block isBlock second
    have region := isBlock.region
    obtain ⟨_, rfl⟩ := region.of_leads_second fetched leads second
    have inState : program.slotCount + block.slot.toNat < thread.memory.state.size := by
      rw [sized]
      exact Program.scratch_lt_frameSize region.saves rfl
    rw [Thread.updated, Array.getElem?_setIfInBounds, if_pos rfl, if_pos inState, depth]
  guarded := by
    intro block isBlock inside
    have region := isBlock.region
    rcases region.of_leads_inside fetched leads inside with ⟨_, rfl⟩ | inBody
    · contradiction
    · obtain ⟨guard, below, guards, saved⟩ := prepared.guarded block isBlock inBody.inside
      refine ⟨guard, below, guards, ?_⟩
      rw [Thread.getElem?_updated_scratch fetched (region.unwritten _ _ fetched inBody), saved]

variable {target : UInt32}

/-- A frame that is pushed has prepared for its target. -/
theorem resumption (prepared : Prepared program thread.pc thread.memory.state frames)
    (sized : thread.memory.state.size = program.frameSize)
    (fetched : program.fetch thread.pc = some (.pushBacktrack target)) :
    Prepared program target.toNat
      (Memory.frame program.frameSize thread.position target.toNat thread.memory.state)
      frames where
  saved := by
    intro block isBlock second
    obtain ⟨_, same⟩ := isBlock.region.of_leads_second fetched (.target rfl) second
    contradiction
  guarded := by
    intro block isBlock inside
    have region := isBlock.region
    rcases region.of_leads_inside fetched (.target rfl) inside with ⟨_, same⟩ | inBody
    · -- The guard itself resumes outside.
      obtain rfl := Instruction.pushBacktrack.inj same
      exact absurd inside.contains region.alternative
    · obtain ⟨guard, below, guards, saved⟩ := prepared.guarded block isBlock inBody.inside
      refine ⟨guard, below, guards, ?_⟩
      rw [Memory.getElem?_frame_scratch sized region.slot_lt_counters, saved]

/-- A push prepares the thread for what follows it. -/
theorem push (prepared : Prepared program thread.pc thread.memory.state frames)
    (fetched : program.fetch thread.pc = some (.pushBacktrack target)) {frame : Array Int}
    (resumes : ResumesAt program frame target.toNat) :
    Prepared program (thread.pc + 5) thread.memory.state (frame :: frames) where
  saved := by
    intro block isBlock second
    obtain ⟨_, same⟩ := isBlock.region.of_leads_second fetched (.next rfl) second
    contradiction
  guarded := by
    intro block isBlock inside
    have region := isBlock.region
    rcases region.of_leads_inside fetched (.next rfl) inside with ⟨second, same⟩ | inBody
    · obtain rfl := Instruction.pushBacktrack.inj same
      exact ⟨frame, frames, .base resumes, prepared.saved block isBlock second⟩
    · obtain ⟨guard, below, guards, saved⟩ := prepared.guarded block isBlock inBody.inside
      exact ⟨guard, below,
        .above guards resumes (region.closed _ _ _ fetched inBody (.target rfl)), saved⟩

/-- Where a nested block is left, its slot holds the depth below its guard. -/
theorem exists_guards (prepared : Prepared program thread.pc thread.memory.state frames)
    {block : Lookaround} (isBlock : IsLookaround program block) (inBody : block.InBody thread.pc)
    {instruction : Instruction UInt32} (fetched : program.fetch thread.pc = some instruction)
    (cuts : instruction.leavesLookaround = true) {slot : UInt32}
    (uses : instruction.slot? = some slot) {depth : Nat}
    (saved : thread.memory.state[program.slotCount + slot.toNat]? = some (depth : Int)) :
    ∃ inner guard below, IsLookaround program inner ∧ inner.Within block ∧
      inner.Guards program guard below frames ∧ frames.drop (frames.length - depth) = below := by
  obtain ⟨inner, isInner, within, place, rfl⟩ :=
    isBlock.exists_leave fetched inBody cuts uses
  have inside : inner.Inside thread.pc := by
    rw [← place]
    exact ⟨isInner.region.ordered, Nat.le_refl _⟩
  obtain ⟨guard, below, guards, holds⟩ := prepared.guarded inner isInner inside
  have same := Option.some.inj (saved.symm.trans holds)
  obtain rfl : depth = below.length := by omega
  exact ⟨inner, guard, below, isInner, within, guards, guards.drop⟩

/-- A cut in the body of a block leaves the guard of the block where it is. -/
theorem guards_cut (prepared : Prepared program thread.pc thread.memory.state frames)
    {block : Lookaround} (isBlock : IsLookaround program block) (inBody : block.InBody thread.pc)
    {instruction : Instruction UInt32} (fetched : program.fetch thread.pc = some instruction)
    (cuts : instruction.leavesLookaround = true) {slot : UInt32}
    (uses : instruction.slot? = some slot) {depth : Nat}
    (saved : thread.memory.state[program.slotCount + slot.toNat]? = some (depth : Int))
    {guard : Array Int} {below : List (Array Int)}
    (guards : block.Guards program guard below frames) :
    block.Guards program guard below (frames.drop (frames.length - depth)) := by
  obtain ⟨inner, innerGuard, innerBelow, isInner, within, innerGuards, rfl⟩ :=
    prepared.exists_guards isBlock inBody fetched cuts uses saved
  exact guards.of_nested isBlock.region isInner.region within innerGuards

/-- Leaving a block keeps what is prepared for the blocks around it. -/
theorem leave (prepared : Prepared program thread.pc thread.memory.state frames) {slot : UInt32}
    (fetched : program.fetch thread.pc = some (.assertionSuccess slot target)) {depth : Nat}
    (saved : thread.memory.state[program.slotCount + slot.toNat]? = some (depth : Int)) :
    Prepared program target.toNat thread.memory.state
      (frames.drop (frames.length - depth)) where
  saved := by
    intro block isBlock second
    obtain ⟨_, same⟩ := isBlock.region.of_leads_second fetched (.target rfl) second
    contradiction
  guarded := by
    intro block isBlock inside
    have region := isBlock.region
    rcases region.of_leads_inside fetched (.target rfl) inside with ⟨_, same⟩ | inBody
    · contradiction
    · obtain ⟨guard, below, guards, holds⟩ := prepared.guarded block isBlock inBody.inside
      exact ⟨guard, below, prepared.guards_cut isBlock inBody fetched rfl rfl saved guards, holds⟩

end Prepared

/-- The frame that a push puts on the stack resumes at its target. -/
theorem resumesAt_frame {program : Program} {state : Array Int} (position resume : Nat)
    (sized : state.size = program.frameSize) :
    ResumesAt program (Memory.frame program.frameSize position resume state) resume := by
  rw [ResumesAt, Memory.getElem?_frame sized program.two_lt_frameSize, if_pos rfl]

namespace Thread

variable {program : Program} {subject : Array α} {limit : StackLimit} {start : Nat}
  {thread next : Thread}

/-- A tidy stack resumes a thread that has prepared for its offset. -/
theorem settled_resumed {memory : Memory} {frames : List (Array Int)}
    (stacked : Stacked program.frameSize memory.stack frames) (tidy : Tidy program frames)
    (present : memory.hasFrame program.frameSize = true) :
    (memory.resumed program.frameSize).Settled program := by
  obtain ⟨frame, older, stack, rfl, sized, below, resumes⟩ :=
    Memory.resumed_of_stacked stacked program.frameSize_pos present
  cases tidy with
  | cons olderTidy atPc prepared =>
    rw [resumes, atPc]
    exact ⟨sized, older, below, olderTidy, prepared⟩

/-- A step keeps a thread settled. -/
theorem Settled.step (settled : thread.Settled program)
    (continues : thread.step program subject limit = .running next) : next.Settled program := by
  obtain ⟨sized, frames, stacked, tidy, prepared⟩ := settled
  obtain ⟨instruction, fetched, performs | ⟨memory, performs, present, rfl⟩⟩ :=
    performs_of_running continues
  · cases performs with
    | goOn keeps leads =>
      have depth := Memory.depth_eq stacked program.frameSize_pos
      exact ⟨(size_updated _ _ _).trans sized, frames, stacked, tidy,
        prepared.goOn sized depth fetched keeps leads⟩
    | push target =>
      have resumes := resumesAt_frame thread.position target.toNat sized
      exact ⟨sized, _, Memory.stacked_pushed stacked sized _ _,
        .cons tidy resumes (prepared.resumption sized fetched), prepared.push fetched resumes⟩
    | leave target saved =>
      exact ⟨sized, _, stacked.cut _, tidy.drop _, prepared.leave fetched saved⟩
  · cases performs with
    | fail => exact settled_resumed stacked tidy present
    | abandon => exact settled_resumed (stacked.cut _) (tidy.drop _) present

/-- Every thread that an attempt reaches is settled. -/
theorem Reachable.settled (reachable : Reachable program subject limit start thread) :
    thread.Settled program := by
  obtain ⟨memory, first, begins, steps⟩ := reachable
  induction steps with
  | refl =>
    obtain ⟨_, _, rfl⟩ := eq_of_initial begins
    refine ⟨by simp, [], .empty, .nil, ?_, ?_⟩
    · intro block _ (second : 0 = block.enter + 5)
      omega
    · intro block _ (inside : block.enter + 10 ≤ 0 ∧ 0 ≤ block.leave)
      omega
  | step prior continues inductionHypothesis => exact inductionHypothesis.step continues

end Thread

end RegexMachine
