import RegexMachine.Proofs.AlikeThreads
import RegexMachine.Proofs.LeftmostSearch
import RegexMachine.Proofs.LiteralPieces
import RegexMachine.Proofs.Safety

/-!
# Running literals in pieces

A program whose literals are checked in pieces runs as the one with the whole literals: a step at a
literal is made in as many steps as it has pieces, or in fewer if it fails
(`Thread.exists_comesTo_literal`), and every other step in one. The threads of the two programs are
alike at the places where a part of the code begins, whatever offsets these have, and so are the
frames, which resume only there. `Thread.exists_run_split_iff` concludes that runs end alike, and
`Assembly.finish_split` that the program with pieces is accepted and that its searches end alike.
-/

namespace RegexMachine

open Instruction

variable {α : Type} [CodeUnit α]

/-- The checks of pieces stand one after the other from an offset to another one. -/
inductive Program.Checks (program : Program) : Nat → List Piece → Nat → Prop where
  | nil (pc : Nat) : Checks program pc [] pc
  | cons {pc stop : Nat} {piece : Piece} {later : List Piece}
      (fetched : program.fetch pc = some piece.check)
      (rest : Checks program (pc + (piece.check : Instruction UInt32).length) later stop) :
      Checks program pc (piece :: later) stop

/-- A literal at an offset in one program and its pieces at an offset in another one. What follows
the literal follows the last piece. -/
structure Program.Cuts (program other : Program) (parts : List Part) (pieces : List Piece)
    (pc otherPc : Nat) : Prop where
  nonempty : pieces ≠ []
  proper : ∀ piece ∈ pieces, piece.Proper (other.ignoreCase = false)
  fetched : program.fetch pc = some (.checkLiteral (pieces.flatMap Piece.units))
  next : ∃ stop, other.Checks otherPc pieces stop ∧
    Part.Begin parts
      (pc + (.checkLiteral (pieces.flatMap Piece.units) : Instruction UInt32).length) stop

/-- Programs with the same parts, the first one with whole literals and the second one with
literals in pieces. -/
structure Program.SplitBy (program other : Program) (parts : List Part) : Prop where
  moves : program.Moves other (Part.Begin parts)
  filter : other.filter = program.filter
  first : Part.Begin parts 0 0
  parts : ∀ pc otherPc, Part.Begin parts pc otherPc →
    program.Paired other (Part.Begin parts) True pc otherPc ∨
      ∃ pieces, program.Cuts other parts pieces pc otherPc

section

variable {subject : Array α} {position : Nat}

/-- A literal stands at a position if its front does and the rest does behind the front. -/
theorem literalAt_append (ignoreCase : Bool) (front back : List UInt16) :
    literalAt ignoreCase subject position (front ++ back) =
      (literalAt ignoreCase subject position front &&
        literalAt ignoreCase subject (position + front.length) back) := by
  induction front generalizing position with
  | nil => rfl
  | cons target later inductionHypothesis =>
    rw [List.cons_append, literalAt, literalAt, List.length_cons, ← Nat.add_assoc,
      Nat.add_right_comm]
    cases unitAt? subject position with
    | none => rfl
    | some unit =>
      simp only [inductionHypothesis, Bool.and_assoc]

/-- A literal of one unit stands where the unit does, if literals match exactly. -/
theorem literalAt_singleton (unit : UInt16) :
    literalAt false subject position [unit] =
      Thread.unitPasses subject position (· == unit) := by
  rw [literalAt, Thread.unitPasses]
  cases unitAt? subject position with
  | none => rfl
  | some found => simp [literalAt, sameUnit]

end

/-- Units that are consumed one after the other are consumed together. -/
theorem Effect.consumeIf_add (passed : Bool) (pc position units more : Nat) (memory : Memory) :
    Effect.consumeIf passed pc position (units + more) memory =
      .consumeIf passed pc (position + units) more memory := by
  rw [consumeIf, consumeIf, Nat.add_assoc]

namespace Thread

variable {program other : Program} {subject : Array α} {limit : StackLimit} {thread next : Thread}
  {step : Step} {pc stop position : Nat} {memory : Memory}

/-- Whether a thread comes to a step, after steps before it that run on. -/
def ComesTo (program : Program) (subject : Array α) (limit : StackLimit) (thread : Thread)
    (step : Step) : Prop :=
  ∃ cost, thread.run program subject limit cost = none ∧
    ∀ budget, thread.run program subject limit (cost + 1 + budget) =
      step.run program subject limit budget

/-- A thread comes to its next step at once. -/
theorem comesTo_step (program : Program) (subject : Array α) (limit : StackLimit)
    (thread : Thread) :
    ComesTo program subject limit thread (thread.step program subject limit) := by
  refine ⟨0, rfl, fun budget => ?_⟩
  rw [Nat.zero_add, Nat.add_comm, run_succ]

/-- A thread that runs on comes to the steps of the next thread. -/
theorem comesTo_of_running (continues : thread.step program subject limit = .running next)
    (comes : ComesTo program subject limit next step) :
    ComesTo program subject limit thread step := by
  obtain ⟨cost, before, after⟩ := comes
  refine ⟨1 + cost, (run_of_step continues cost).trans before, fun budget => ?_⟩
  rw [Nat.add_assoc, Nat.add_assoc, run_of_step continues, ← Nat.add_assoc, after]

/-- A literal consumes its units, if these stand at the position. -/
theorem step_literal {units : List UInt16} (fetched : program.fetch pc = some (.checkLiteral units))
    (within : position ≤ subject.size) :
    (⟨pc, position, memory⟩ : Thread).step program subject limit =
      .ofEffect program (.ok (.consumeIf (literalAt program.ignoreCase subject position units)
        (pc + (.checkLiteral units : Instruction UInt32).length) position units.length
        memory)) := by
  rw [step_of_fetch fetched]
  exact congrArg (Step.ofEffect program) (literal_eq_ok within)

/-- The check of a piece consumes its units, if these stand at the position. -/
theorem step_piece {piece : Piece} (fetched : program.fetch pc = some piece.check)
    (proper : piece.Proper (program.ignoreCase = false)) (within : position ≤ subject.size) :
    (⟨pc, position, memory⟩ : Thread).step program subject limit =
      .ofEffect program (.ok (.consumeIf
        (literalAt program.ignoreCase subject position piece.units)
        (pc + (piece.check : Instruction UInt32).length) position piece.units.length
        memory)) := by
  cases piece with
  | literal units => exact step_literal fetched within
  | single unit =>
    have caseless : program.ignoreCase = false := proper
    rw [step_of_fetch fetched, caseless, Piece.units, literalAt_singleton, Piece.check, ofUnit]
    split
    · rename_i narrow
      simp only [execute, checkUnit, toUInt16_toUInt8 narrow]
      rfl
    · rfl

/-- A thread at the first piece of a literal comes to the step that the whole literal would make. -/
theorem exists_comesTo_literal {pieces : List Piece} (checks : program.Checks pc pieces stop)
    (nonempty : pieces ≠ [])
    (proper : ∀ piece ∈ pieces, piece.Proper (program.ignoreCase = false))
    (within : position ≤ subject.size) :
    ComesTo program subject limit ⟨pc, position, memory⟩
      (.ofEffect program (.ok (.consumeIf
        (literalAt program.ignoreCase subject position (pieces.flatMap Piece.units)) stop position
        (pieces.flatMap Piece.units).length memory))) := by
  induction checks generalizing position with
  | nil => contradiction
  | @cons pc stop piece later fetched rest inductionHypothesis =>
    have first : piece.Proper (program.ignoreCase = false) := proper piece List.mem_cons_self
    have stepped : (⟨pc, position, memory⟩ : Thread).step program subject limit = _ :=
      step_piece fetched first within
    rw [List.flatMap_cons, literalAt_append, List.length_append]
    cases passed : literalAt program.ignoreCase subject position piece.units with
    | false =>
      rw [passed] at stepped
      have comes := comesTo_step program subject limit ⟨pc, position, memory⟩
      rw [stepped] at comes
      exact comes
    | true =>
      rw [passed] at stepped
      rw [Bool.true_and, Effect.consumeIf_add]
      cases later with
      | nil =>
        cases rest
        have comes := comesTo_step program subject limit ⟨pc, position, memory⟩
        rw [stepped] at comes
        exact comes
      | cons second others =>
        exact comesTo_of_running stepped (inductionHypothesis (List.cons_ne_nil _ _)
          (fun other member => proper other (List.mem_cons_of_mem _ member))
          (add_length_le_of_literalAt within passed))

variable {otherThread : Thread} {parts : List Part} {start : Nat} {outcome : Outcome}

/-- A step with whole literals is one that the thread with pieces comes to. -/
theorem exists_comesTo_alike (splitBy : program.SplitBy other parts)
    (sound : thread.Sound program subject.size limit start)
    (alike : Thread.Alike program.frameSize (Part.Begin parts) True thread otherThread) :
    ∃ step, ComesTo other subject limit otherThread step ∧
      Step.Alike program.frameSize (Part.Begin parts) True (thread.step program subject limit)
        step := by
  have within := sound.within
  obtain @⟨pc, otherPc, position, memory, otherMemory, placed, alike⟩ := alike
  rcases splitBy.parts pc otherPc placed with paired | ⟨pieces, cuts⟩
  · exact ⟨_, comesTo_step other subject limit _,
      step_alike subject limit splitBy.moves alike paired position⟩
  · obtain ⟨nonempty, proper, fetched, stop, checks, next⟩ := cuts
    refine ⟨_, exists_comesTo_literal checks nonempty proper within, ?_⟩
    rw [step_literal fetched within, splitBy.moves.ignoreCase]
    exact ofEffect_alike splitBy.moves (.ok (consumeIf_alike alike next _ _))

/-- A run with literals in pieces ends as the one with whole literals does, or neither ends. -/
theorem exists_run_split_iff (splitBy : program.SplitBy other parts)
    (short : program.bytes.length ≤ maxSlot) (unitsFit : subject.size ≤ maxSlot)
    (limitFits : limit.frames ≤ maxSlot) (sound : thread.Sound program subject.size limit start)
    (alike : Thread.Alike program.frameSize (Part.Begin parts) True thread otherThread) :
    (∃ budget after, otherThread.run other subject limit budget = some (outcome, after)) ↔
      ∃ budget after, thread.run program subject limit budget = some (outcome, after) := by
  constructor
  · rintro ⟨budget, after, ends⟩
    -- The induction is strong, because one step there takes several here.
    induction budget using Nat.strongRecOn generalizing thread otherThread with
    | ind budget inductionHypothesis =>
      obtain ⟨step, ⟨cost, before, comes⟩, stepAlike⟩ := exists_comesTo_alike splitBy sound alike
      have enough : cost < budget := by
        by_contra early
        rw [run_of_le ends (Nat.le_of_not_lt early)] at before
        contradiction
      obtain ⟨rest, rfl⟩ := Nat.exists_eq_add_of_le (Nat.succ_le_of_lt enough)
      rw [comes] at ends
      generalize stepped : thread.step program subject limit = wholeStep at stepAlike
      cases stepAlike with
      | running nextAlike =>
        obtain ⟨further, left, wholeEnds⟩ := inductionHypothesis rest (by omega)
          (step_sound short unitsFit limitFits sound stepped) nextAlike ends
        exact ⟨1 + further, left, (run_of_step stepped further).trans wholeEnds⟩
      | ended ended memory otherMemory =>
        cases ends
        exact ⟨1, memory, by rw [run_succ, stepped]; rfl⟩
  · rintro ⟨budget, after, ends⟩
    induction budget generalizing thread otherThread with
    | zero => contradiction
    | succ budget inductionHypothesis =>
      obtain ⟨step, ⟨cost, _, comes⟩, stepAlike⟩ := exists_comesTo_alike splitBy sound alike
      rw [run_succ] at ends
      generalize stepped : thread.step program subject limit = wholeStep at stepAlike ends
      cases stepAlike with
      | running nextAlike =>
        obtain ⟨further, left, otherEnds⟩ := inductionHypothesis
          (step_sound short unitsFit limitFits sound stepped) nextAlike ends
        exact ⟨cost + 1 + further, left, (comes further).trans otherEnds⟩
      | ended ended memory otherMemory =>
        cases ends
        exact ⟨cost + 1 + 0, otherMemory, comes 0⟩

end Thread

section

variable {program other : Program} {parts : List Part} {subject : Array α} {limit : StackLimit}
  {start offset : Nat}
  {outcome : Outcome}

/-- An attempt with literals in pieces ends as the one with whole literals. -/
theorem attemptEnds_split_iff (splitBy : program.SplitBy other parts)
    (short : program.bytes.length ≤ maxSlot) (unitsFit : subject.size ≤ maxSlot)
    (limitFits : limit.frames ≤ maxSlot) (within : start ≤ subject.size) :
    AttemptEnds other subject limit start outcome ↔
      AttemptEnds program subject limit start outcome := by
  have sizes := splitBy.moves.frameSize_eq
  have begins : Thread.initial other start .empty = Thread.initial program start .empty := by
    rw [Thread.initial, Thread.initial, Program.frameFits, Program.frameFits, sizes]
  rw [AttemptEnds, AttemptEnds]
  cases initial : Thread.initial program start .empty with
  | error stop => simp only [attempt, begins, initial]
  | ok first =>
    have sound : first.Sound program subject.size limit start :=
      Thread.Reachable.sound short unitsFit limitFits within ⟨.empty, first, initial, .refl⟩
    simp only [attempt, begins, initial]
    obtain ⟨_, _, rfl⟩ := Thread.eq_of_initial initial
    exact Thread.exists_run_split_iff splitBy short unitsFit limitFits sound
      (.mk splitBy.first ⟨.refl sound.memory.state.sized, [], [], .empty, .empty, .nil⟩)

/-- A search through starts ends alike in two programs whose attempts do. -/
theorem scanEnds_of_attemptEnds {starts : List Nat}
    (same : ∀ start ∈ starts, ∀ outcome, AttemptEnds program subject limit start outcome →
      AttemptEnds other subject limit start outcome)
    (ends : ScanEnds program subject limit starts outcome) :
    ScanEnds other subject limit starts outcome := by
  induction ends with
  | nil => exact .nil
  | stop decisive ends => exact .stop decisive (same _ List.mem_cons_self _ ends)
  | next fails _ inductionHypothesis =>
    exact .next (same _ List.mem_cons_self _ fails)
      (inductionHypothesis fun start member => same start (List.mem_cons_of_mem _ member))

namespace Matcher

variable {matcher : Matcher} {buffer result : Array Int}

/-- Runs with literals in pieces end as those with whole literals at the same starts. -/
theorem runsAt_split_iff {starts : List Nat} (splitBy : program.SplitBy other parts)
    (short : program.bytes.length ≤ maxSlot)
    (within : ∀ start ∈ starts, start ≤ subject.size) :
    matcher.RunsAt other subject buffer starts outcome result ↔
      matcher.RunsAt program subject buffer starts outcome result := by
  have refusals : other.refusal? subject buffer.size = program.refusal? subject buffer.size := by
    rw [Program.refusal?, Program.refusal?, splitBy.moves.slotCount_eq]
  cases refused : program.refusal? subject buffer.size with
  | some fault =>
    rw [runsAt_iff_of_refused refused, runsAt_iff_of_refused (refusals.trans refused)]
  | none =>
    have unitsFit := Program.size_le_of_refusal? refused
    have attempts : ∀ start ∈ starts, ∀ outcome,
        AttemptEnds other subject matcher.limit start outcome ↔
          AttemptEnds program subject matcher.limit start outcome :=
      fun start tried outcome => attemptEnds_split_iff splitBy short unitsFit matcher.limit_le
        (within start tried)
    rw [runsAt_iff refused, runsAt_iff (refusals.trans refused)]
    refine and_congr_left fun _ => ⟨?_, ?_⟩
    · exact scanEnds_of_attemptEnds fun start tried outcome => (attempts start tried outcome).mp
    · exact scanEnds_of_attemptEnds fun start tried outcome => (attempts start tried outcome).mpr

/-- A search with literals in pieces ends as the one with whole literals. -/
theorem executes_split_iff (splitBy : program.SplitBy other parts)
    (short : program.bytes.length ≤ maxSlot) :
    matcher.Executes other subject buffer offset outcome result ↔
      matcher.Executes program subject buffer offset outcome result := by
  have starts : other.candidates subject offset = program.candidates subject offset := by
    rw [Program.candidates, Program.candidates, splitBy.filter]
  simp only [Executes, execute, starts]
  exact runsAt_split_iff splitBy short fun start tried =>
    (Program.mem_candidates_iff.mp tried).le_size

/-- Matching at an offset with literals in pieces ends as it does with whole literals. -/
theorem executesAt_split_iff (splitBy : program.SplitBy other parts)
    (short : program.bytes.length ≤ maxSlot) :
    matcher.ExecutesAt other subject buffer offset outcome result ↔
      matcher.ExecutesAt program subject buffer offset outcome result := by
  refine runsAt_split_iff splitBy short fun start tried => ?_
  rw [onlyStart] at tried
  split at tried
  · rename_i inside
    obtain rfl := List.mem_singleton.mp tried
    exact inside
  · contradiction

/-- A search with literals in pieces, in a buffer that is made for it, ends as the one with whole
literals. -/
theorem searches_split_iff (splitBy : program.SplitBy other parts)
    (short : program.bytes.length ≤ maxSlot) :
    matcher.Searches other subject offset outcome result ↔
      matcher.Searches program subject offset outcome result := by
  have buffers : other.newBuffer? = program.newBuffer? := by
    rw [Program.newBuffer?, Program.newBuffer?, Program.slotsFit, Program.slotsFit,
      splitBy.moves.slotCount_eq]
  rw [Searches, Searches]
  cases made : program.newBuffer? with
  | none => simp only [search, buffers, made, Option.some.injEq, Report.mk.injEq]
  | some buffer =>
    simp only [search, buffers, made]
    exact executes_split_iff splitBy short

end Matcher

end

namespace Assembly

variable {assembly other : Assembly} {parts : List Part} {captures counters : Nat}
  {program otherProgram : Program} {instructions others : List (Instruction UInt32)}

/-- The checks of pieces that were appended in order stand one after the other. -/
theorem Finished.checks (finished : assembly.Finished captures counters program instructions)
    {before after : List (Instruction Label)} {pieces : List Piece}
    (split : assembly.emitted.toList = before ++ (pieces.map Piece.check ++ after)) :
    program.Checks (totalLength before) pieces
      (totalLength before +
        totalLength (pieces.map (Piece.check : Piece → Instruction Label))) := by
  induction pieces generalizing before with
  | nil => exact .nil _
  | cons piece later inductionHypothesis =>
    obtain ⟨instruction, fetched, resolved⟩ := finished.exists_fetch split
    have same := resolved.length_eq
    obtain rfl := Piece.eq_check_of_resolved resolved
    refine .cons fetched ?_
    have behind : program.Checks (totalLength (before ++ [piece.check])) later _ :=
      inductionHypothesis (by rw [split]; simp)
    rw [totalLength_append, totalLength_cons, totalLength_nil, Nat.add_zero, ← same] at behind
    rw [List.map_cons, totalLength_cons, ← same, ← Nat.add_assoc]
    exact behind

section

variable (inStep : InStep (assembly.ignoreCase = false) parts assembly other)
  (finished : assembly.Finished captures counters program instructions)
  (otherFinished : other.Finished captures counters otherProgram others)
  {before after : List Part}
include inStep finished

/-- A part begins behind one that falls through. -/
theorem InStep.begin_behind {part : Part} (split : parts = before ++ part :: after)
    {instruction : Instruction UInt32}
    (fetched : program.fetch (totalLength (before.map Part.whole)) = some instruction)
    (length : instruction.length = part.whole.length)
    (continues : instruction.fallsThrough = true) :
    Part.Begin parts (totalLength (before.map Part.whole) + part.whole.length)
      (totalLength (before.flatMap Part.pieced) + totalLength part.pieced) := by
  obtain ⟨following, found⟩ := Program.exists_fetch_next fetched continues
  have inside := Program.lt_length_of_fetch found
  rw [length, finished.length_bytes, inStep.whole] at inside
  subst split
  exact (Part.meet_behind before after part).begin inside

include otherFinished

/-- An instruction that is kept does the same in both programs. -/
theorem InStep.paired {symbolic : Instruction Label}
    (split : parts = before ++ .keep symbolic :: after) :
    program.Paired otherProgram (Part.Begin parts) True (totalLength (before.map Part.whole))
      (totalLength (before.flatMap Part.pieced)) := by
  have place : assembly.emitted.toList =
      before.map Part.whole ++ symbolic :: after.map Part.whole := by
    rw [inStep.whole, split, List.map_append]
    rfl
  have otherPlace : other.emitted.toList =
      before.flatMap Part.pieced ++ symbolic :: after.flatMap Part.pieced := by
    rw [inStep.pieced, split, List.flatMap_append]
    rfl
  obtain ⟨instruction, fetched, resolved⟩ := finished.exists_fetch place
  obtain ⟨otherInstruction, otherFetched, otherResolved⟩ := otherFinished.exists_fetch otherPlace
  refine ⟨fetched, otherFetched, resolved.join otherResolved ?_, ?_, fun _ _ => trivial⟩
  · intro label jumps target otherTarget means otherMeans
    obtain ⟨placed, otherPlaced, isPlace, isOtherPlace, begins⟩ :=
      inStep.exists_begin_of_target finished.finishable (by rw [place]; simp) jumps
    obtain rfl := Option.some.inj (means.symm.trans isPlace)
    obtain rfl := Option.some.inj (otherMeans.symm.trans isOtherPlace)
    exact begins
  · intro continues
    rw [resolved.length_eq, otherResolved.length_eq]
    exact inStep.begin_behind finished split fetched resolved.length_eq continues

/-- The pieces of a literal stand where the literal does. -/
theorem InStep.cuts {pieces : List Piece} (split : parts = before ++ .split pieces :: after) :
    program.Cuts otherProgram parts pieces (totalLength (before.map Part.whole))
      (totalLength (before.flatMap Part.pieced)) := by
  have place : assembly.emitted.toList = before.map Part.whole ++
      .checkLiteral (pieces.flatMap Piece.units) :: after.map Part.whole := by
    rw [inStep.whole, split, List.map_append]
    rfl
  have otherPlace : other.emitted.toList = before.flatMap Part.pieced ++
      (pieces.map Piece.check ++ after.flatMap Part.pieced) := by
    rw [inStep.pieced, split, List.flatMap_append]
    rfl
  obtain ⟨instruction, fetched, resolved⟩ := finished.exists_fetch place
  obtain ⟨nonempty, proper⟩ := inStep.proper (.split pieces) (by rw [split]; simp)
  cases resolved
  refine ⟨nonempty, ?_, fetched, _, otherFinished.checks otherPlace, ?_⟩
  · rw [otherFinished.ignoreCase, inStep.ignoreCase]
    exact proper
  · exact inStep.begin_behind finished split fetched rfl rfl

/-- Programs that assemblies in step are finished to have the same parts. -/
theorem InStep.splitBy (short : program.bytes.length ≤ maxSlot)
    (otherShort : otherProgram.bytes.length ≤ maxSlot) : program.SplitBy otherProgram parts where
  moves := by
    refine ⟨?_, ?_, ?_, ?_⟩
    · rw [otherFinished.captures, finished.captures]
    · rw [otherFinished.counters, finished.counters]
    · rw [otherFinished.ignoreCase, finished.ignoreCase, inStep.ignoreCase]
    · intro pc otherPc begins
      have inside := begins.standsAt_whole.lt_totalLength
      have otherInside := (begins.standsAt inStep.proper).lt_totalLength
      rw [← inStep.whole, ← finished.length_bytes] at inside
      rw [← inStep.pieced, ← otherFinished.length_bytes] at otherInside
      omega
  filter := by
    rw [otherFinished.filter, finished.filter, inStep.deriveFilter, inStep.filter,
      inStep.ignoreCase, inStep.leadingFilter?_eq id]
  first := by
    have nonempty := finished.finishable.nonempty
    rw [inStep.whole] at nonempty
    cases parts with
    | nil => exact absurd rfl nonempty
    | cons part later => exact ⟨[], part, later, rfl, rfl, rfl⟩
  parts := by
    rintro pc otherPc ⟨before, part, after, split, rfl, rfl⟩
    cases part with
    | keep symbolic => exact .inl (inStep.paired finished otherFinished split)
    | split pieces => exact .inr ⟨pieces, inStep.cuts finished otherFinished split⟩

end

/-- Splitting literals does not change a program: directives in which literals are replaced by
their pieces, and where literals match exactly by checks of their units, assemble to a program with
which every search, and every match at an offset, ends as it does with the whole literals, or goes
on for ever where that one does. -/
theorem finish_split (directives pieced : List Directive) (captures counters : Nat)
    (assembly : Assembly) (program : Program)
    (applied : empty.applyAll directives = .ok assembly)
    (finished : assembly.finish captures counters = .ok program)
    (splits : Splits (assembly.ignoreCase = false) directives pieced)
    (short : program.bytes.length ≤ maxSlot) (otherShort : Directive.codeSize pieced ≤ maxSlot) :
    ∃ otherAssembly other, empty.applyAll pieced = .ok otherAssembly ∧
      otherAssembly.finish captures counters = .ok other ∧
      other.bytes.length = Directive.codeSize pieced ∧
      ∀ (α : Type) [CodeUnit α] (matcher : Matcher) (subject : Array α) (offset : Nat)
        (outcome : Outcome) (result : Array Int),
        (matcher.Searches other subject offset outcome result ↔
          matcher.Searches program subject offset outcome result) ∧
        ∀ buffer,
          (matcher.Executes other subject buffer offset outcome result ↔
            matcher.Executes program subject buffer offset outcome result) ∧
          (matcher.ExecutesAt other subject buffer offset outcome result ↔
            matcher.ExecutesAt program subject buffer offset outcome result) := by
  have fits : empty.pc + Directive.codeSize pieced < wordLimit := by
    have limits : maxSlot < wordLimit := by decide
    rw [show empty.pc = 0 from rfl]
    omega
  obtain ⟨otherAssembly, parts, otherApplied, inStep⟩ :=
    splits.exists_applyAll .empty applied fits
  obtain ⟨instructions, whole⟩ := exists_finished applied finished
  obtain ⟨other, otherFinished⟩ :=
    (finish_iff otherApplied).mpr (inStep.finishable whole.finishable)
  obtain ⟨others, inPieces⟩ := exists_finished otherApplied otherFinished
  have size : other.bytes.length = Directive.codeSize pieced := by
    rw [inPieces.length_bytes, ← otherAssembly.pc_eq, pc_of_applyAll otherApplied]
    exact Nat.zero_add _
  have splitBy := inStep.splitBy whole inPieces short (size ▸ otherShort)
  exact ⟨otherAssembly, other, otherApplied, otherFinished, size,
    fun α _ matcher subject offset outcome result =>
      ⟨Matcher.searches_split_iff splitBy short, fun buffer =>
        ⟨Matcher.executes_split_iff splitBy short, Matcher.executesAt_split_iff splitBy short⟩⟩⟩

/-- A literal in two halves, and behind a choice one that is a check of its unit. The label moves
by three bytes, and the filter that is derived is that of the whole literal. -/
theorem finish_split_choice :
    ∃ assembly program,
      empty.applyAll [.newLabel, .deriveFilter true, .emit (.checkLiteral [97]),
        .emit (.checkLiteral [98]), .emit (.pushBacktrack ⟨0⟩), .emitUnit 99, .emit .success,
        .bind ⟨0⟩, .emit .success] = .ok assembly ∧
      assembly.finish 1 0 = .ok program ∧
      Matcher.default.Searches program (#[120, 97, 98] : Array UInt8) 0 (.matched #[1, 3])
        #[1, 3] := by
  have builds : ((empty.applyAll [.newLabel, .deriveFilter true, .emit (.checkLiteral [97, 98]),
      .emit (.pushBacktrack ⟨0⟩), .emit (.checkLiteral [99]), .emit .success, .bind ⟨0⟩,
      .emit .success]).toOption.map fun assembly => decide (assembly.ignoreCase = false ∧
        ((assembly.finish 1 0).toOption.map fun program => decide (program.bytes.length = 23 ∧
          Matcher.default.search program (#[120, 97, 98] : Array UInt8) 0 4 =
            some ⟨.matched #[1, 3], #[1, 3], ⟨none, false, arrayLimit, ⟨#[1, 3, 22], #[]⟩⟩⟩)) =
              some true)) = some true := by
    decide +kernel
  obtain ⟨assembly, applied, caseless, builds⟩ := exists_ok_of_decide builds
  obtain ⟨program, finished, length, ends⟩ := exists_ok_of_decide builds
  have splits : Splits (assembly.ignoreCase = false)
      [.newLabel, .deriveFilter true, .emit (.checkLiteral ([97] ++ [98])),
        .emit (.pushBacktrack ⟨0⟩), .emit (.checkLiteral [99]), .emit .success, .bind ⟨0⟩,
        .emit .success]
      [.newLabel, .deriveFilter true, .emit (.checkLiteral [97]), .emit (.checkLiteral [98]),
        .emit (.pushBacktrack ⟨0⟩), .emitUnit 99, .emit .success, .bind ⟨0⟩, .emit .success] :=
    .keep _ (.keep _ (.halve (by simp) (by simp) (.keep _ (.single 99 caseless
      (.keep _ (.keep _ (.keep _ .nil)))))))
  have short : program.bytes.length ≤ maxSlot := by
    rw [length]
    decide
  obtain ⟨otherAssembly, other, otherApplied, otherFinished, _, same⟩ :=
    finish_split _ _ 1 0 assembly program applied finished splits short (by decide)
  exact ⟨otherAssembly, other, otherApplied, otherFinished,
    (same UInt8 Matcher.default #[120, 97, 98] 0 _ _).1.mpr ⟨4, _, ends⟩⟩

end Assembly

end RegexMachine
