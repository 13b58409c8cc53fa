import Mathlib.Algebra.Ring.Nat
import RegexMachine.Proofs.ControlCycles
import RegexMachine.Proofs.Effects
import RegexMachine.Proofs.LeftmostSearch

/-!
# Termination

Every run of a guarded program ends. A thread only moves on by consuming units, by storing the
position in a further guard, or by passing on to an offset with fewer offsets ahead of it, and so
its rank decreases with every instruction (`Thread.rank_lt_of_execute`). A push makes two threads of
lower rank out of one, hence the powers of 3 of the ranks of a thread and of its frames add up to a
weight that every step decreases (`Thread.step_lighter`). `Program.guarded_terminates` draws the
conclusion for attempts and searches.
-/

namespace RegexMachine

variable {α : Type} [CodeUnit α]

namespace Program

variable {program : Program} {size position after pc next : Nat} {held later : Finset UInt32}
  {instruction : Instruction UInt32}

/-- The guards whose slots hold a position. -/
noncomputable def heldGuards (program : Program) (position : Nat) (state : Array Int) :
    Finset UInt32 :=
  program.guards.filter fun slot =>
    state[program.slotCount + slot.toNat]? = some (position : Int)

/-- The rank of an offset, for the size of the subject, a position in it and the guards that hold
the position: in this order count the units ahead, the guards that do not hold the position and the
offsets that control can pass on to until one of these changes. -/
noncomputable def rank (program : Program) (size position : Nat) (held : Finset UInt32)
    (pc : Nat) : Nat :=
  ((size - position) * (program.guards.card + 1) + (program.guards.card - held.card)) *
      (program.bytes.length + 1) +
    extent (program.Idles held) program.bytes.length pc

/-- A number is smaller if its high digit is, whatever the low digits below the base are. -/
theorem lexicographic_lt {low high less more base : Nat} (smaller : less < more)
    (fits : low ≤ base) : less * (base + 1) + low < more * (base + 1) + high :=
  calc less * (base + 1) + low < (less + 1) * (base + 1) := by
        rw [Nat.succ_mul]
        omega
    _ ≤ more * (base + 1) := Nat.mul_le_mul_right _ smaller
    _ ≤ more * (base + 1) + high := Nat.le_add_right _ _

/-- The rank is lower at every later position within the subject. -/
theorem rank_lt_of_position (onward : position < after) (within : after ≤ size) :
    program.rank size after later next < program.rank size position held pc :=
  lexicographic_lt (lexicographic_lt (by omega) (Nat.sub_le _ _)) (extent_le _ _ _)

/-- In a guarded program the rank is lower behind an instruction that stays at the position. It
stores the position in a further guard, or control does not come back without such a store. -/
theorem rank_lt_of_leads (guarded : program.IsGuarded)
    (fetched : program.fetch pc = some instruction) (leads : instruction.Leads pc next)
    (idle : instruction.consumes = false) (guards : held ⊆ program.guards)
    (tests : ∀ slot, instruction = .positionTest slot → slot ∉ held)
    (stores : ∀ slot, slot ∈ later ↔
      slot ∈ program.guards ∧ (instruction = .storePosition slot ∨ slot ∈ held)) :
    program.rank size position later next < program.rank size position held pc := by
  -- At one position the guards that hold it only ever grow.
  have grows : held ⊆ later := fun slot member => (stores slot).mpr ⟨guards member, .inr member⟩
  by_cases same : held = later
  · -- Then control idles, and no idle walk comes back.
    subst same
    have idles : program.Idles held pc next :=
      ⟨instruction, fetched, leads, idle, fun slot guard =>
        ⟨fun isStore => (stores slot).mpr ⟨guard, .inl isStore⟩, tests slot⟩⟩
    exact Nat.add_lt_add_left
      (extent_lt idles (lt_length_of_leads fetched leads) (guarded.idles_acyclic held next)) _
  · have more := Finset.card_lt_card (Finset.ssubset_iff_subset_ne.mpr ⟨grows, same⟩)
    have bounded := Finset.card_le_card fun slot member => ((stores slot).mp member).1
    exact lexicographic_lt (Nat.add_lt_add_left (by omega) _) (extent_le _ _ _)

end Program

namespace Effect

/-- A test after which a thread goes on was passed. -/
theorem eq_of_consumeIf {passed : Bool} {pc position units : Nat} {memory : Memory} {next : Thread}
    (goesOn : consumeIf passed pc position units memory = .proceed next) :
    passed = true ∧ next = ⟨pc, position + units, memory⟩ := by
  cases passed with
  | true => exact ⟨rfl, (Effect.proceed.inj goesOn).symm⟩
  | false => contradiction

end Effect

namespace Thread

variable {program : Program} {subject : Array α} {limit : StackLimit} {thread next : Thread}
  {instruction : Instruction UInt32}

/-- An instruction that goes on, other than at the end of a look-around, updates the state. -/
theorem state_of_proceed (stays : ∀ slot target, instruction ≠ .assertionSuccess slot target)
    (performs : Performs program thread instruction (.proceed next)) :
    next.memory.state = thread.updated program instruction := by
  cases performs with
  | goOn | push => rfl
  | leave => exact absurd rfl (stays _ _)

/-- An instruction that goes on, other than at the end of a look-around, leaves the position alone,
or it moves it onwards within the subject. It does the latter if it consumes units. -/
theorem position_of_execute (fetched : program.fetch thread.pc = some instruction)
    (stays : ∀ slot target, instruction ≠ .assertionSuccess slot target)
    (executes : thread.execute program subject limit instruction = .ok (.proceed next)) :
    instruction.consumes = false ∧ next.position = thread.position ∨
      thread.position < next.position ∧ next.position ≤ subject.size := by
  cases instruction with
  | storeSp | storePosition | endCapture =>
    cases eq_of_save executes
    exact .inl ⟨rfl, rfl⟩
  | counterZero slot =>
    have saves : thread.save 0 (program.slotCount + slot.toNat) _ = .ok (.proceed next) := executes
    cases eq_of_save saves
    exact .inl ⟨rfl, rfl⟩
  | startCapture =>
    cases eq_of_openGroup executes
    exact .inl ⟨rfl, rfl⟩
  | counterNext =>
    obtain ⟨_, _, same⟩ := eq_of_count executes
    cases same
    exact .inl ⟨rfl, rfl⟩
  | clearCaptures first stop =>
    simp only [execute, Effect.withMemory] at executes
    split at executes
    · contradiction
    · cases executes
      exact .inl ⟨rfl, rfl⟩
  | pushBacktrack target =>
    simp only [execute, Effect.withMemory] at executes
    split at executes
    · contradiction
    · cases executes
      exact .inl ⟨rfl, rfl⟩
  | positionTest slot =>
    simp only [execute, requireMoved] at executes
    split at executes
    · contradiction
    · split at executes
      · contradiction
      · obtain ⟨_, rfl⟩ := Effect.eq_of_consumeIf (Except.ok.inj executes)
        exact .inl ⟨rfl, rfl⟩
  | assertion anchor =>
    simp only [execute, test] at executes
    split at executes
    · contradiction
    · obtain ⟨_, rfl⟩ := Effect.eq_of_consumeIf (Except.ok.inj executes)
      exact .inl ⟨rfl, rfl⟩
  | backReference group ignoreCase =>
    simp only [execute, backReference] at executes
    split at executes
    · contradiction
    · cases executes
      exact .inl ⟨rfl, rfl⟩
    · rename_i text _
      split at executes
      · contradiction
      · rename_i within
        split at executes
        · cases executes
        · split at executes
          · contradiction
          · obtain ⟨repeated, rfl⟩ := Effect.eq_of_consumeIf (Except.ok.inj executes)
            have ends := add_le_of_repeatsAt (Nat.le_of_not_lt within) repeated
            by_cases empty : text.stop - text.start = 0
            · exact .inl ⟨rfl, by rw [empty]; rfl⟩
            · exact .inr ⟨Nat.lt_add_of_pos_right (Nat.pos_of_ne_zero empty), ends⟩
  | checkByte | checkUnit | checkAny | checkRange =>
    obtain ⟨passed, rfl⟩ := Effect.eq_of_consumeIf (Except.ok.inj executes)
    exact .inr ⟨Nat.lt_succ_self _, lt_size_of_unitPasses passed⟩
  | checkLiteral units =>
    obtain ⟨_, wellFormed, _, _, member⟩ := Program.exists_layout fetched
    have nonempty : 0 < units.length := (wellFormed.encodable _ member).1
    simp only [execute, literal] at executes
    split at executes
    · contradiction
    · rename_i within
      obtain ⟨found, rfl⟩ := Effect.eq_of_consumeIf (Except.ok.inj executes)
      exact .inr ⟨Nat.lt_add_of_pos_right nonempty,
        add_length_le_of_literalAt (Nat.le_of_not_lt within) found⟩
  | jump target =>
    cases executes
    exact .inl ⟨rfl, rfl⟩
  | assertionSuccess slot target => exact absurd rfl (stays slot target)
  | assertionFailure | failure | success =>
    have leads := (performs_of_execute executes).leads
    rcases leads.eq with ⟨⟨⟩, _⟩ | ⟨_, ⟨⟩, _⟩

/-- Where a test of the position goes on, the slot does not hold it. -/
theorem slot_ne_of_positionTest {slot : UInt32}
    (executes : thread.execute program subject limit (.positionTest slot) = .ok (.proceed next)) :
    thread.memory.state[program.slotCount + slot.toNat]? ≠ some (thread.position : Int) := by
  simp only [execute, requireMoved] at executes
  split at executes
  · contradiction
  · rename_i saved read
    split at executes
    · contradiction
    · rename_i here fits
      obtain ⟨passed, _⟩ := Effect.eq_of_consumeIf (Except.ok.inj executes)
      obtain rfl := eq_of_toCell fits
      rw [Memory.read_eq_ok_iff.mp read]
      simpa using passed

/-- The guards that hold the position of a thread are those that did, and the one that it is stored
in. -/
theorem mem_heldGuards_updated (fetched : program.fetch thread.pc = some instruction)
    (sized : thread.memory.state.size = program.frameSize) (slot : UInt32) :
    slot ∈ program.heldGuards thread.position (thread.updated program instruction) ↔
      slot ∈ program.guards ∧ (instruction = .storePosition slot ∨
        slot ∈ program.heldGuards thread.position thread.memory.state) := by
  simp only [Program.heldGuards, Finset.mem_filter]
  refine and_congr_right fun guard => ?_
  by_cases stores : instruction = .storePosition slot
  · subst stores
    have inState := Program.scratch_lt_frameSize fetched rfl
    simp only [updated, true_or, iff_true]
    rw [Array.getElem?_setIfInBounds_self_of_lt (sized ▸ inState)]
  · have other : instruction.writtenSlot? ≠ some slot :=
      fun writes => stores ((Program.mem_guards_iff.mp guard).2 _ _ fetched writes)
    rw [getElem?_updated_scratch fetched other]
    simp [stores, guard]

/-- The guards that hold the position in a frame are those that hold it in the state. -/
theorem mem_heldGuards_frame {position resume : Nat} {state : Array Int}
    (sized : state.size = program.frameSize) (slot : UInt32) :
    slot ∈ program.heldGuards position (Memory.frame program.frameSize position resume state) ↔
      slot ∈ program.heldGuards position state := by
  simp only [Program.heldGuards, Finset.mem_filter]
  refine and_congr_right fun guard => ?_
  rw [Memory.getElem?_frame_scratch sized (Program.lt_counters_of_mem_guards guard)]

/-- The rank of a thread. -/
noncomputable def rank (program : Program) (subject : Array α) (thread : Thread) : Nat :=
  program.rank subject.size thread.position
    (program.heldGuards thread.position thread.memory.state) thread.pc

/-- The thread that a frame resumes, with no frames below it. -/
def ofFrame (size : Nat) (frame : Array Int) : Thread :=
  ⟨(frame[size - 1]?.getD unset).toNat, (frame[1]?.getD unset).toNat, ⟨frame, #[]⟩⟩

/-- The weight of a thread without its stack. -/
noncomputable def load (program : Program) (subject : Array α) (thread : Thread) : Nat :=
  3 ^ thread.rank program subject

/-- The weight of the threads that frames resume. -/
noncomputable def framesLoad (program : Program) (subject : Array α) (frames : List (Array Int)) :
    Nat :=
  (frames.map fun frame => (ofFrame program.frameSize frame).load program subject).sum

omit [CodeUnit α] in
/-- A thread has a weight. -/
theorem load_pos : 0 < thread.load program subject :=
  Nat.pow_pos (by decide)

omit [CodeUnit α] in
/-- Threads of lower rank are lighter. -/
theorem load_lt (lower : next.rank program subject < thread.rank program subject) :
    next.load program subject < thread.load program subject :=
  Nat.pow_lt_pow_right (by decide) lower

omit [CodeUnit α] in
/-- Two threads of lower rank together are lighter. -/
theorem load_add_load_lt {other : Thread}
    (lower : next.rank program subject < thread.rank program subject)
    (otherLower : other.rank program subject < thread.rank program subject) :
    next.load program subject + other.load program subject < thread.load program subject := by
  obtain ⟨most, same⟩ := Nat.exists_eq_succ_of_ne_zero (Nat.ne_zero_of_lt lower)
  have bound : 3 ^ next.rank program subject ≤ 3 ^ most :=
    Nat.pow_le_pow_right (by decide) (by omega)
  have otherBound : 3 ^ other.rank program subject ≤ 3 ^ most :=
    Nat.pow_le_pow_right (by decide) (by omega)
  have positive : 0 < 3 ^ most := Nat.pow_pos (by decide)
  rw [load, load, load, same, Nat.pow_succ]
  omega

omit [CodeUnit α] in
/-- Frames that are cut off leave no more weight behind. -/
theorem framesLoad_drop_le (frames : List (Array Int)) (count : Nat) :
    framesLoad program subject (frames.drop count) ≤ framesLoad program subject frames := by
  have split : framesLoad program subject frames =
      framesLoad program subject (frames.take count) +
        framesLoad program subject (frames.drop count) := by
    rw [framesLoad, framesLoad, framesLoad, ← List.sum_append, ← List.map_append,
      List.take_append_drop]
  rw [split]
  exact Nat.le_add_left _ _

section

variable (guarded : program.IsGuarded) (sized : thread.memory.state.size = program.frameSize)
include guarded sized

omit [CodeUnit α] in
/-- The frame of a push has a lower rank than the thread that pushes it. -/
theorem rank_lt_of_push (subject : Array α) {target : UInt32}
    (fetched : program.fetch thread.pc = some (.pushBacktrack target)) :
    (ofFrame program.frameSize (Memory.frame program.frameSize thread.position target.toNat
      thread.memory.state)).rank program subject < thread.rank program subject := by
  have large := program.two_lt_frameSize
  have same : program.heldGuards thread.position
      (Memory.frame program.frameSize thread.position target.toNat thread.memory.state) =
        program.heldGuards thread.position thread.memory.state :=
    Finset.ext (mem_heldGuards_frame sized)
  rw [rank, rank, ofFrame, Memory.getElem?_frame sized large, Memory.getElem?_frame sized large,
    if_pos rfl, if_neg (by omega), if_pos rfl]
  simp only [Option.getD_some, Int.toNat_natCast, same]
  exact Program.rank_lt_of_leads guarded fetched (.target rfl) rfl (Finset.filter_subset _ _)
    nofun fun slot => ⟨fun member => ⟨(Finset.mem_filter.mp member).1, .inr member⟩,
      fun ⟨_, member⟩ => member.resolve_left nofun⟩

variable (noSuccess : ∀ pc slot target,
  program.fetch pc ≠ some (.assertionSuccess slot target))
include noSuccess

/-- Every instruction that goes on lowers the rank. -/
theorem rank_lt_of_execute (fetched : program.fetch thread.pc = some instruction)
    (executes : thread.execute program subject limit instruction = .ok (.proceed next)) :
    next.rank program subject < thread.rank program subject := by
  have stays : ∀ slot target, instruction ≠ .assertionSuccess slot target := by
    rintro slot target rfl
    exact noSuccess _ _ _ fetched
  have performs := performs_of_execute executes
  have leads := performs.leads
  have state := state_of_proceed stays performs
  rcases position_of_execute fetched stays executes with ⟨idle, position⟩ | ⟨onward, within⟩
  · rw [rank, rank, position, state]
    refine Program.rank_lt_of_leads guarded fetched leads idle (Finset.filter_subset _ _) ?_
      (mem_heldGuards_updated fetched sized)
    rintro slot rfl member
    exact slot_ne_of_positionTest executes (Finset.mem_filter.mp member).2
  · exact Program.rank_lt_of_position onward within

/-- Every step that runs on leads to a thread that is lighter together with its stack. -/
theorem step_lighter {frames : List (Array Int)}
    (stacked : Stacked program.frameSize thread.memory.stack frames)
    (continues : thread.step program subject limit = .running next) :
    ∃ remaining, Stacked program.frameSize next.memory.stack remaining ∧
      next.load program subject + framesLoad program subject remaining <
        thread.load program subject + framesLoad program subject frames := by
  obtain ⟨instruction, fetched, executes | ⟨memory, executes, present, rfl⟩⟩ :=
    executes_of_running continues
  · have lower := rank_lt_of_execute guarded sized noSuccess fetched executes
    cases performs_of_execute executes with
    | goOn => exact ⟨frames, stacked, Nat.add_lt_add_right (load_lt lower) _⟩
    | push target =>
      refine ⟨_, Memory.stacked_pushed stacked sized _ _, ?_⟩
      have lighter := load_add_load_lt lower (rank_lt_of_push guarded sized subject fetched)
      rw [framesLoad, List.map_cons, List.sum_cons, ← Nat.add_assoc]
      exact Nat.add_lt_add_right lighter _
    | leave => exact absurd fetched (noSuccess _ _ _)
  · -- The thread that fails no longer counts, nor do frames that are cut off.
    have kept : ∃ kept, Stacked program.frameSize memory.stack kept ∧
        framesLoad program subject kept ≤ framesLoad program subject frames := by
      cases performs_of_execute executes with
      | fail => exact ⟨frames, stacked, Nat.le_refl _⟩
      | abandon => exact ⟨_, stacked.cut _, framesLoad_drop_le _ _⟩
    obtain ⟨_, keptStacked, lighter⟩ := kept
    obtain ⟨frame, older, stack, rfl, _, below, resumes⟩ :=
      Memory.resumed_of_stacked keptStacked program.frameSize_pos present
    have same : framesLoad program subject (frame :: older) =
        (ofFrame program.frameSize frame).load program subject +
          framesLoad program subject older := by
      rw [framesLoad, framesLoad, List.map_cons, List.sum_cons]
    rw [same] at lighter
    refine ⟨older, by rw [resumes]; exact below, ?_⟩
    have alike : (memory.resumed program.frameSize).load program subject =
        (ofFrame program.frameSize frame).load program subject := by
      rw [resumes]
      rfl
    rw [alike]
    exact Nat.lt_of_le_of_lt lighter (Nat.lt_add_of_pos_left load_pos)

/-- Every run ends within as many steps as its thread and stack weigh. -/
theorem run_ends (subject : Array α) (limit : StackLimit) {budget : Nat} {frames : List (Array Int)}
    (stacked : Stacked program.frameSize thread.memory.stack frames)
    (enough : thread.load program subject + framesLoad program subject frames < budget) :
    ∃ ended, thread.run program subject limit budget = some ended := by
  induction budget generalizing thread frames with
  | zero => contradiction
  | succ budget inductionHypothesis =>
    rw [run_succ]
    cases stepped : thread.step program subject limit with
    | ended outcome memory => exact ⟨(outcome, memory), rfl⟩
    | running next =>
      obtain ⟨remaining, below, lighter⟩ := step_lighter guarded sized noSuccess stacked stepped
      have nextSized := (Steps.refl.step stepped).sized sized
      exact inductionHypothesis nextSized below (by omega)

end

end Thread

section

variable {program : Program} {subject : Array α} {limit : StackLimit} {start : Nat}

/-- Every attempt of a guarded program ends. -/
theorem Program.IsGuarded.attempt_ends (guarded : program.IsGuarded)
    (noSuccess : ∀ pc slot target, program.fetch pc ≠ some (.assertionSuccess slot target))
    (subject : Array α) (limit : StackLimit) (start : Nat) (memory : Memory) :
    ∃ budget ended, attempt program subject limit budget start memory = some ended := by
  cases begins : Thread.initial program start memory with
  | error stop => exact ⟨0, (stop.outcome, .empty), by rw [attempt, begins]⟩
  | ok first =>
    obtain ⟨_, _, same⟩ := Thread.eq_of_initial begins
    have sized : first.memory.state.size = program.frameSize := by simp [same]
    have stacked : Stacked program.frameSize first.memory.stack [] := by
      rw [same]
      exact .empty
    obtain ⟨ended, runs⟩ := Thread.run_ends guarded sized noSuccess subject limit stacked
      (Nat.lt_succ_self _)
    exact ⟨_, ended, (attempt_of_initial begins).trans runs⟩

/-- A search through starts ends if every attempt does. -/
theorem ScanEnds.exists_of_attemptEnds
    (ends : ∀ start, ∃ outcome, AttemptEnds program subject limit start outcome)
    (starts : List Nat) : ∃ outcome, ScanEnds program subject limit starts outcome := by
  induction starts with
  | nil => exact ⟨.unmatched, .nil⟩
  | cons start later inductionHypothesis =>
    obtain ⟨outcome, tried⟩ := ends start
    by_cases fails : outcome = .unmatched
    · obtain ⟨last, rest⟩ := inductionHypothesis
      exact ⟨last, .next (fails ▸ tried) rest⟩
    · exact ⟨outcome, .stop fails tried⟩

namespace Matcher

variable {matcher : Matcher} {buffer : Array Int} {offset : Nat}

/-- A search ends if every attempt does. -/
theorem exists_executes
    (ends : ∀ start, ∃ outcome, AttemptEnds program subject matcher.limit start outcome) :
    ∃ outcome result, matcher.Executes program subject buffer offset outcome result := by
  cases refused : program.refusal? subject buffer.size with
  | some fault => exact ⟨_, _, (executes_iff_of_refused refused).mpr ⟨rfl, rfl⟩⟩
  | none =>
    obtain ⟨outcome, scanned⟩ :=
      ScanEnds.exists_of_attemptEnds ends (program.candidates subject offset)
    exact ⟨outcome, _, (executes_iff refused).mpr ⟨scanned, rfl⟩⟩

/-- Matching at a start ends if every attempt does. -/
theorem exists_executesAt
    (ends : ∀ start, ∃ outcome, AttemptEnds program subject matcher.limit start outcome) :
    ∃ outcome result, matcher.ExecutesAt program subject buffer start outcome result := by
  cases refused : program.refusal? subject buffer.size with
  | some fault => exact ⟨.fault fault, buffer, 0, matcher, by rw [executeAt, runAt, refused]⟩
  | none =>
    by_cases within : start ≤ subject.size
    · obtain ⟨outcome, tried⟩ := ends start
      exact ⟨outcome, _, (executesAt_iff refused within).mpr ⟨tried, rfl⟩⟩
    · exact ⟨.unmatched, buffer, 0, _, by
        rw [executeAt, runAt, refused, onlyStart, if_neg within]
        rfl⟩

end Matcher

end

namespace Program

/-- A program that does not leave look-arounds and whose cycles all consume a unit or require a
change of position always ends: so does every attempt, wherever it starts, every search and every
match at a start, for every ceiling of the stack. -/
theorem guarded_terminates (program : Program) (subject : Array α)
    (noSuccess : ∀ pc slot target, program.fetch pc ≠ some (.assertionSuccess slot target))
    (guarded : program.IsGuarded) :
    (∀ limit start memory, ∃ budget ended,
      attempt program subject limit budget start memory = some ended) ∧
    ∀ (matcher : Matcher) (buffer : Array Int) (offset : Nat),
      (∃ outcome result, matcher.Executes program subject buffer offset outcome result) ∧
      ∃ outcome result, matcher.ExecutesAt program subject buffer offset outcome result := by
  have attempts := guarded.attempt_ends noSuccess subject
  refine ⟨attempts, fun matcher buffer offset => ?_⟩
  have ends : ∀ start, ∃ outcome, AttemptEnds program subject matcher.limit start outcome := by
    intro start
    obtain ⟨budget, ⟨outcome, after⟩, ended⟩ := attempts matcher.limit start .empty
    exact ⟨outcome, budget, after, ended⟩
  exact ⟨Matcher.exists_executes ends, Matcher.exists_executesAt ends⟩

/-- A loop whose body may be left empty ends, because each iteration has to change the position. -/
theorem guarded_terminates_optional_loop :
    ∃ program, ofBytes [16, 27, 0, 0, 0, 1, 0, 0, 0, 0, 16, 17, 0, 0, 0, 19, 97, 2, 0, 0, 0, 0,
        27, 0, 0, 0, 0, 19, 98, 29] 1 1 = .ok program ∧ program.IsGuarded ∧
      (∀ pc slot target, program.fetch pc ≠ some (.assertionSuccess slot target)) ∧
      ∀ limit start memory, ∃ budget ended,
        attempt program (#[98] : Array UInt8) limit budget start memory = some ended := by
  have runs : ((ofBytes [16, 27, 0, 0, 0, 1, 0, 0, 0, 0, 16, 17, 0, 0, 0, 19, 97, 2, 0, 0, 0, 0,
      27, 0, 0, 0, 0, 19, 98, 29] 1 1).toOption.map fun program => decide (
        program.entries = [⟨0, .pushBacktrack 27⟩, ⟨5, .storePosition 0⟩, ⟨10, .pushBacktrack 17⟩,
          ⟨15, .checkByte 97⟩, ⟨17, .positionTest 0⟩, ⟨22, .jump 0⟩, ⟨27, .checkByte 98⟩,
          ⟨29, .success⟩])) = some true := by
    decide +kernel
  obtain ⟨program, accepted, entries⟩ := exists_ok_of_decide runs
  have noSuccess : ∀ pc slot target,
      program.fetch pc ≠ some (.assertionSuccess slot target) := by
    intro pc slot target fetched
    rw [fetch_eq_some_iff, entries] at fetched
    simp at fetched
  have guarded : program.IsGuarded := by
    intro offsets cycle
    have holds : program.HoldsPositions 0 := by
      rw [holdsPositions_iff, entries]
      decide
    -- Without the store or without the test control only moves onwards, up to where it starts.
    have stores := cycle.exists_mem_of_rises [5] (fun pc => if pc < 10 then pc + 23 else pc)
      (rises_of_entries (by rw [entries]; decide))
    have tests := cycle.exists_mem_of_rises [17] (fun pc => if pc = 22 then 0 else pc + 1)
      (rises_of_entries (by rw [entries]; decide))
    obtain ⟨_, stored, isStore⟩ := stores
    obtain ⟨_, tested, isTest⟩ := tests
    obtain rfl := List.mem_singleton.mp isStore
    obtain rfl := List.mem_singleton.mp isTest
    exact .inr ⟨0, holds, ⟨5, stored, fetch_eq_some_iff.mpr (by simp [entries])⟩,
      ⟨17, tested, fetch_eq_some_iff.mpr (by simp [entries])⟩⟩
  exact ⟨program, accepted, guarded, noSuccess,
    (guarded_terminates program #[98] noSuccess guarded).1⟩

end Program

end RegexMachine
