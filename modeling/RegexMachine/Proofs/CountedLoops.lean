import RegexMachine.Proofs.Effects
import RegexMachine.Proofs.Paths

/-!
# Counted loops

A counter holds the number of times that its path has counted since it was set to zero, up to the
largest number of a slot (`Path.counts_invariant`). Frames bring the counter back together with the
path, so this is about what was executed on the path and not about what was executed at all.

A loop that is entered only where its counter is set to zero is therefore left after exactly as many
iterations as it asks for (`Thread.History.counts_iterations`). For this the offsets along a path
matter too: `PlaceInvariant` is the induction over the places that a path, or a frame with the path
to it, leads to.
-/

namespace RegexMachine

variable {α : Type} [CodeUnit α]

namespace Waypoint

/-- Whether a waypoint counts in a slot. -/
def counts (slot : UInt32) : Waypoint → Bool
  | .executed (.counterNext counted _ _) => counted == slot
  | _ => false

/-- Whether a waypoint writes a slot, but not as a counter. -/
def overwrites (slot : UInt32) : Waypoint → Bool
  | .executed (.storeSp saved) | .executed (.storePosition saved) => saved == slot
  | _ => false

/-- An instruction that does not write a slot does not count in it. -/
theorem counts_eq_false {slot : UInt32} {instruction : Instruction UInt32}
    (other : instruction.writtenSlot? ≠ some slot) :
    (Waypoint.executed instruction).counts slot = false := by
  cases instruction with
  | counterNext counted => exact beq_eq_false_iff_ne.mpr fun same => other (congrArg some same)
  | _ => rfl

/-- An instruction that overwrites a slot writes it. -/
theorem writtenSlot?_of_overwrites {slot : UInt32} {instruction : Instruction UInt32}
    (overwrites : (Waypoint.executed instruction).overwrites slot = true) :
    instruction.writtenSlot? = some slot := by
  cases instruction with
  | storeSp saved | storePosition saved => exact congrArg some (beq_iff_eq.mp overwrites)
  | _ => contradiction

/-- An instruction that writes a slot saves a depth or a position in it, sets it to zero or counts
in it. -/
theorem overwrites_or_counts {slot : UInt32} {instruction : Instruction UInt32}
    (writes : instruction.writtenSlot? = some slot) :
    (Waypoint.executed instruction).overwrites slot = true ∨ instruction = .counterZero slot ∨
      ∃ max target, instruction = .counterNext slot max target := by
  cases instruction with
  | storeSp saved | storePosition saved => exact .inl (beq_iff_eq.mpr (Option.some.inj writes))
  | counterZero zeroed => exact .inr (.inl (congrArg _ (Option.some.inj writes)))
  | counterNext counted max target =>
    obtain rfl := Option.some.inj writes
    exact .inr (.inr ⟨max, target, rfl⟩)
  | _ => contradiction

end Waypoint

/-- Whether a scratch slot is written by nothing but counters: set to zero, and counted up. -/
def Program.CountsIn (program : Program) (slot : UInt32) : Prop :=
  ∀ pc instruction, program.fetch pc = some instruction → instruction.writtenSlot? = some slot →
    instruction = .counterZero slot ∨ ∃ max target, instruction = .counterNext slot max target

namespace Path

/-- The waypoints on a path since a counter was last set to zero, and all of them if it never
was. -/
def sinceZero (slot : UInt32) (path : Path) : List Waypoint :=
  path.takeWhile (· != .executed (.counterZero slot))

/-- How often a path has counted in a slot since the counter was last set to zero. -/
def counted (slot : UInt32) (path : Path) : Nat :=
  (path.sinceZero slot).countP (Waypoint.counts slot)

/-- Whether a path has written a slot only as a counter since it was last set to zero. -/
def Undisturbed (slot : UInt32) (path : Path) : Prop :=
  ∀ waypoint ∈ path.sinceZero slot, waypoint.overwrites slot = false

variable {slot : UInt32} {waypoint : Waypoint} {path : Path}

/-- Nothing stands on a path since a counter was set to zero just now. -/
@[simp] theorem sinceZero_zero :
    sinceZero slot (.executed (.counterZero slot) :: path) = [] := by
  rw [sinceZero, List.takeWhile_cons_of_neg (by simp)]

/-- A waypoint that does not set a counter to zero is one since it was last set to zero. -/
theorem sinceZero_cons (other : waypoint ≠ .executed (.counterZero slot)) :
    sinceZero slot (waypoint :: path) = waypoint :: sinceZero slot path := by
  rw [sinceZero, List.takeWhile_cons_of_pos (by simpa using other), sinceZero]

/-- A waypoint that counts adds one. -/
theorem counted_cons_of_counts (counts : waypoint.counts slot = true) :
    counted slot (waypoint :: path) = counted slot path + 1 := by
  have other : waypoint ≠ .executed (.counterZero slot) := by
    rintro rfl
    contradiction
  rw [counted, sinceZero_cons other, List.countP_cons_of_pos counts, counted]

/-- A waypoint that does not write a counter leaves the count alone. -/
theorem counted_cons_of_silent (other : waypoint ≠ .executed (.counterZero slot))
    (silent : waypoint.counts slot = false) :
    counted slot (waypoint :: path) = counted slot path := by
  rw [counted, sinceZero_cons other, List.countP_cons_of_neg (by simp [silent]), counted]

/-- A path that has written a slot only as a counter had done so before its last waypoint. -/
theorem undisturbed_of_cons (other : waypoint ≠ .executed (.counterZero slot))
    (undisturbed : Undisturbed slot (waypoint :: path)) :
    waypoint.overwrites slot = false ∧ Undisturbed slot path := by
  rw [Undisturbed, sinceZero_cons other] at undisturbed
  exact ⟨undisturbed _ List.mem_cons_self,
    fun earlier member => undisturbed earlier (List.mem_cons_of_mem _ member)⟩

/-- What a path that set a counter to zero tells about the slot: it holds how often the path has
counted since, up to the largest number of a slot. -/
structure Counts (program : Program) (slot : UInt32) (path : Path) (state : Array Int) : Prop where
  fetched : ∀ instruction, .executed instruction ∈ path →
    ∃ pc, program.fetch pc = some instruction
  holds : .executed (.counterZero slot) ∈ path → path.Undisturbed slot →
    state[program.slotCount + slot.toNat]? = some ((min (path.counted slot) maxSlot : Nat) : Int)

/-- Instructions and frames keep what a path tells about a counter. -/
theorem counts_invariant (program : Program) (slot : UInt32) :
    PathInvariant program (Counts program slot) where
  updated := by
    intro thread instruction path fetched _ sized counts
    refine ⟨?_, ?_⟩
    · intro other member
      rcases List.mem_cons.mp member with same | member
      · obtain rfl := Waypoint.executed.inj same
        exact ⟨_, fetched⟩
      · exact counts.fetched other member
    · intro zeroed undisturbed
      by_cases zero : instruction = .counterZero slot
      · subst zero
        have inState : program.slotCount + slot.toNat < program.frameSize :=
          Program.scratch_lt_frameSize fetched rfl
        rw [counted, sinceZero_zero]
        exact Array.getElem?_setIfInBounds_self_of_lt (by rw [sized]; exact inState)
      · have other : Waypoint.executed instruction ≠ .executed (.counterZero slot) :=
          fun same => zero (Waypoint.executed.inj same)
        obtain ⟨notOverwritten, undisturbedBefore⟩ := undisturbed_of_cons other undisturbed
        have before := counts.holds ((List.mem_cons.mp zeroed).resolve_left (Ne.symm other))
          undisturbedBefore
        by_cases writes : instruction.writtenSlot? = some slot
        · rcases Waypoint.overwrites_or_counts writes with overwrites | zeroes | ⟨max, target, rfl⟩
          · rw [notOverwritten] at overwrites
            contradiction
          · exact absurd zeroes zero
          · have inState := (Array.getElem?_eq_some_iff.mp before).1
            simp only [Thread.updated, before, Option.getD_some]
            rw [Array.getElem?_setIfInBounds_self_of_lt inState,
              counted_cons_of_counts (by exact beq_self_eq_true slot), Option.some.injEq]
            omega
        · rw [Thread.getElem?_updated_scratch fetched writes,
            counted_cons_of_silent other (Waypoint.counts_eq_false writes)]
          exact before
  framed := by
    intro position resume path state sized counts
    have other : Waypoint.resumed ≠ .executed (.counterZero slot) := by simp
    refine ⟨?_, ?_⟩
    · intro instruction member
      exact counts.fetched instruction ((List.mem_cons.mp member).resolve_left (by simp))
    · intro zeroed undisturbed
      have zeroedBefore := (List.mem_cons.mp zeroed).resolve_left (Ne.symm other)
      obtain ⟨pc, fetched⟩ := counts.fetched _ zeroedBefore
      rw [Memory.getElem?_frame_scratch sized (Program.slot_lt_counters fetched rfl),
        counted_cons_of_silent other rfl]
      exact counts.holds zeroedBefore (undisturbed_of_cons other undisturbed).2

/-- A slot that the program uses as a counter only holds how often its path has counted. -/
theorem Counts.getElem?_of_countsIn {program : Program} {state : Array Int}
    (counts : Counts program slot path state) (counter : program.CountsIn slot)
    (zeroed : .executed (.counterZero slot) ∈ path) :
    state[program.slotCount + slot.toNat]? =
      some ((min (path.counted slot) maxSlot : Nat) : Int) := by
  refine counts.holds zeroed fun waypoint member => ?_
  cases waypoint with
  | resumed => rfl
  | executed instruction =>
    obtain ⟨pc, fetched⟩ := counts.fetched instruction ((List.takeWhile_sublist _).subset member)
    by_contra overwrites
    have writes := Waypoint.writtenSlot?_of_overwrites (eq_true_of_ne_false overwrites)
    rcases counter pc instruction fetched writes with rfl | ⟨max, target, rfl⟩ <;>
      exact overwrites rfl

/-- Every thread that an attempt reaches, and every frame of its stack, holds in a slot that its
path uses as a counter how often the path has counted. -/
theorem holdsAlong_counts {program : Program} {subject : Array α} {limit : StackLimit} {start : Nat}
    {thread : Thread} {saved : List Path} (slot : UInt32)
    (history : Thread.History program subject limit start thread path saved) :
    thread.HoldsAlong program (Counts program slot) path saved :=
  (counts_invariant program slot).holdsAlong ⟨nofun, nofun⟩ history

end Path

/-- A property of an offset and a path to it that the threads of an attempt keep. -/
structure PlaceInvariant (program : Program) (subject : Array α) (limit : StackLimit) (start : Nat)
    (holds : Nat → Path → Prop) : Prop where
  /-- Where an instruction goes on. -/
  proceeds : ∀ {thread next : Thread} {path : Path} {saved : List Path}
    {instruction : Instruction UInt32},
    thread.History program subject limit start path saved →
    program.fetch thread.pc = some instruction →
    thread.execute program subject limit instruction = .ok (.proceed next) →
    holds thread.pc path → holds next.pc (.executed instruction :: path)
  /-- Where the frame that a push has saved is resumed. -/
  resumes : ∀ {thread : Thread} {path : Path} {saved : List Path} {target : UInt32},
    thread.History program subject limit start path saved →
    program.fetch thread.pc = some (.pushBacktrack target) →
    holds thread.pc path →
    holds target.toNat (.resumed :: .executed (.pushBacktrack target) :: path)

namespace PlaceInvariant

open Thread

variable {program : Program} {subject : Array α} {limit : StackLimit} {start : Nat}
  {holds : Nat → Path → Prop}

/-- The offset at which a frame resumes has the property with a path that leads on from the
frame. -/
def Resumes (program : Program) (holds : Nat → Path → Prop) (path : Path) (frame : Array Int) :
    Prop :=
  holds (frame[program.frameSize - 1]?.getD unset).toNat path

/-- Every thread that an attempt reaches is at an offset that has the property with its path, and
so are its frames when they are resumed. -/
theorem holdsAt (invariant : PlaceInvariant program subject limit start holds)
    (initially : holds 0 []) {thread : Thread} {path : Path} {saved : List Path}
    (history : History program subject limit start thread path saved) :
    holds thread.pc path ∧
      ∃ frames, Stacked program.frameSize thread.memory.stack frames ∧
        List.Forall₂ (fun path frame => Resumes program holds (.resumed :: path) frame)
          saved frames := by
  -- The induction carries the frames along, because a failure goes on where the newest one does.
  induction history with
  | start begins =>
    obtain ⟨_, _, rfl⟩ := eq_of_initial begins
    exact ⟨initially, [], .empty, .nil⟩
  | @proceed thread next path saved instruction prior fetched executes inductionHypothesis =>
    obtain ⟨place, stack⟩ := inductionHypothesis
    have sized := prior.holdsAlong.sized
    refine ⟨invariant.proceeds prior fetched executes place,
      exists_frames_of_proceed (performs_of_execute executes) sized stack ?_⟩
    rintro target rfl
    rw [Resumes, Memory.getElem?_frame sized program.two_lt_frameSize, if_pos rfl]
    exact invariant.resumes prior fetched place
  | resume prior fetched executes present kept inductionHypothesis =>
    have stack := exists_frames_of_fail (performs_of_execute executes) inductionHypothesis.2
    rw [kept] at stack
    obtain ⟨frame, below, resumes, _, newestHolds, frames⟩ := exists_frame_of_resume stack present
    rw [resumes]
    exact ⟨newestHolds, frames⟩

end PlaceInvariant

/-- The outline of a loop in a program that counts its iterations. -/
structure CountedLoop where
  /-- The offset of the instruction that sets the counter to zero. The body begins behind it. -/
  zero : Nat
  /-- The offset of the instruction that counts an iteration, which ends the loop. -/
  next : Nat
  /-- The scratch slot of the counter. -/
  slot : UInt32
  /-- The number of iterations that the loop asks for. -/
  max : UInt32
  /-- The offset of the body. -/
  top : UInt32

namespace CountedLoop

/-- An offset in the body of a loop, or that of the instruction that counts. -/
def Contains (loop : CountedLoop) (pc : Nat) : Prop :=
  loop.zero + 5 ≤ pc ∧ pc ≤ loop.next

/-- The instruction that counts an iteration. -/
def counting (loop : CountedLoop) : Instruction UInt32 :=
  .counterNext loop.slot loop.max loop.top

/-- What a region of a program has to satisfy to be a counted loop. -/
structure IsLoop (program : Program) (loop : CountedLoop) : Prop where
  zeroes : program.fetch loop.zero = some (.counterZero loop.slot)
  counts : program.fetch loop.next = some loop.counting
  /-- The body begins behind the instruction that sets the counter to zero, and ends where an
  iteration is counted. -/
  begins : loop.top.toNat = loop.zero + 5
  ordered : loop.zero + 5 ≤ loop.next
  /-- Control enters through the instruction that sets the counter to zero only. -/
  entered : ∀ pc instruction entry, program.fetch pc = some instruction → ¬ loop.Contains pc →
    instruction.Leads pc entry → loop.Contains entry → pc = loop.zero
  /-- The body does not write the counter. -/
  unwritten : ∀ pc instruction, program.fetch pc = some instruction → loop.zero + 5 ≤ pc →
    pc < loop.next → instruction.writtenSlot? ≠ some loop.slot

instance (loop : CountedLoop) : DecidablePred loop.Contains :=
  fun pc => inferInstanceAs (Decidable (loop.zero + 5 ≤ pc ∧ pc ≤ loop.next))

/-- A loop is checked entry by entry. -/
theorem isLoop_iff {program : Program} {loop : CountedLoop} :
    loop.IsLoop program ↔
      (program.fetch loop.zero = some (.counterZero loop.slot) ∧
        program.fetch loop.next = some loop.counting ∧ loop.top.toNat = loop.zero + 5 ∧
        loop.zero + 5 ≤ loop.next) ∧
      ∀ entry ∈ program.entries,
        (¬ loop.Contains entry.pc → ∀ next ∈ entry.instruction.successors entry.pc,
          loop.Contains next → entry.pc = loop.zero) ∧
        (loop.zero + 5 ≤ entry.pc → entry.pc < loop.next →
          entry.instruction.writtenSlot? ≠ some loop.slot) := by
  constructor
  · intro isLoop
    refine ⟨⟨isLoop.zeroes, isLoop.counts, isLoop.begins, isLoop.ordered⟩, ?_⟩
    intro entry member
    have fetched := Program.fetch_eq_some_iff.mpr member
    refine ⟨?_, isLoop.unwritten _ _ fetched⟩
    intro outside next leads
    exact isLoop.entered _ _ _ fetched outside (Instruction.mem_successors_iff.mp leads)
  · rintro ⟨⟨zeroes, counts, begins, ordered⟩, entries⟩
    refine ⟨zeroes, counts, begins, ordered, ?_, ?_⟩
    · intro pc instruction next fetched outside leads
      exact (entries _ (Program.fetch_eq_some_iff.mp fetched)).1 outside next
        (Instruction.mem_successors_iff.mpr leads)
    · intro pc instruction fetched
      exact (entries _ (Program.fetch_eq_some_iff.mp fetched)).2

instance (program : Program) (loop : CountedLoop) : Decidable (loop.IsLoop program) :=
  decidable_of_iff _ isLoop_iff.symm

/-- How a path within a loop got there: it set the counter to zero where the loop is entered, and
has written the counter since at the end of the body only, in fewer iterations than the loop asks
for. -/
structure Iterates (program : Program) (subject : Array α) (limit : StackLimit) (start : Nat)
    (loop : CountedLoop) (path : Path) : Prop where
  entry : ∃ outer, path = path.sinceZero loop.slot ++ .executed (.counterZero loop.slot) :: outer ∧
    ∃ thread saved, Thread.History program subject limit start thread outer saved ∧
      thread.pc = loop.zero
  inside : ∀ instruction, .executed instruction ∈ path.sinceZero loop.slot →
    instruction.writtenSlot? = some loop.slot → instruction = loop.counting
  unfinished : path.counted loop.slot = 0 ∨ path.counted loop.slot < loop.max.toNat

variable {program : Program} {subject : Array α} {limit : StackLimit} {start : Nat}
  {loop : CountedLoop}
  {path : Path} {saved : List Path} {thread : Thread}

namespace Iterates

/-- Where a loop is entered no iteration is counted yet. -/
theorem enter (history : Thread.History program subject limit start thread path saved)
    (enters : thread.pc = loop.zero) :
    Iterates program subject limit start loop (.executed (.counterZero loop.slot) :: path) where
  entry := ⟨path, by rw [Path.sinceZero_zero, List.nil_append], thread, saved, history, enters⟩
  inside := by
    intro instruction member
    rw [Path.sinceZero_zero] at member
    contradiction
  unfinished := .inl (by rw [Path.counted, Path.sinceZero_zero, List.countP_nil])

/-- A waypoint that leaves the counter alone, or counts an iteration after which the loop asks for
more, continues the iterations. -/
theorem cons (iterates : Iterates program subject limit start loop path) {waypoint : Waypoint}
    (writes : ∀ instruction, waypoint = .executed instruction →
      instruction.writtenSlot? = some loop.slot → instruction = loop.counting)
    (unfinished : Path.counted loop.slot (waypoint :: path) = 0 ∨
      Path.counted loop.slot (waypoint :: path) < loop.max.toNat) :
    Iterates program subject limit start loop (waypoint :: path) := by
  have other : waypoint ≠ .executed (.counterZero loop.slot) := by
    rintro rfl
    cases writes _ rfl rfl
  obtain ⟨outer, split, entered⟩ := iterates.entry
  refine ⟨⟨outer, ?_, entered⟩, ?_, unfinished⟩
  · rw [Path.sinceZero_cons other, List.cons_append, ← split]
  · intro instruction member
    rw [Path.sinceZero_cons other] at member
    rcases List.mem_cons.mp member with same | member
    · exact writes instruction same.symm
    · exact iterates.inside instruction member

/-- A waypoint that does not write the counter continues the iterations. -/
theorem keep (iterates : Iterates program subject limit start loop path) {waypoint : Waypoint}
    (keeps : ∀ instruction, waypoint = .executed instruction →
      instruction.writtenSlot? ≠ some loop.slot) :
    Iterates program subject limit start loop (waypoint :: path) := by
  have other : waypoint ≠ .executed (.counterZero loop.slot) := fun same => keeps _ same rfl
  have silent : waypoint.counts loop.slot = false := by
    cases waypoint with
    | executed instruction => exact Waypoint.counts_eq_false (keeps instruction rfl)
    | resumed => rfl
  refine iterates.cons (fun instruction same writes => absurd writes (keeps instruction same)) ?_
  rw [Path.counted_cons_of_silent other silent]
  exact iterates.unfinished

/-- Within a loop the slot of the counter holds the number of iterations. -/
theorem getElem?_counter (iterates : Iterates program subject limit start loop path)
    (counts : path.Counts program loop.slot thread.memory.state) :
    thread.memory.state[program.slotCount + loop.slot.toNat]? =
      some ((min (path.counted loop.slot) maxSlot : Nat) : Int) := by
  obtain ⟨outer, split, _⟩ := iterates.entry
  refine counts.holds (by rw [split]; simp) ?_
  intro waypoint member
  cases waypoint with
  | resumed => rfl
  | executed instruction =>
    cases overwrites : (Waypoint.executed instruction).overwrites loop.slot with
    | false => rfl
    | true =>
      have writes := Waypoint.writtenSlot?_of_overwrites overwrites
      rw [iterates.inside instruction member writes] at overwrites
      contradiction

/-- The iterations of a path are the times that it has come to the end of the body. -/
theorem count_counting (iterates : Iterates program subject limit start loop path) :
    (path.sinceZero loop.slot).count (.executed loop.counting) = path.counted loop.slot := by
  rw [List.count, Path.counted]
  refine List.countP_congr fun waypoint member => ?_
  cases waypoint with
  | resumed => simp [Waypoint.counts]
  | executed instruction =>
    rw [beq_iff_eq]
    constructor
    · intro same
      obtain rfl := Waypoint.executed.inj same
      exact beq_self_eq_true loop.slot
    · intro counts
      rw [iterates.inside instruction member ?_]
      by_contra silent
      rw [Waypoint.counts_eq_false silent] at counts
      contradiction

end Iterates

namespace IsLoop

variable (isLoop : loop.IsLoop program)
include isLoop

/-- The instruction that counts the iterations stands at the end of the loop and nowhere else. -/
theorem eq_next_of_fetch {pc : Nat} (fetched : program.fetch pc = some loop.counting) :
    pc = loop.next := by
  have within : loop.Contains pc := by
    by_contra outside
    have enters := isLoop.entered pc loop.counting loop.top.toNat fetched outside (.target rfl)
      ⟨Nat.le_of_eq isLoop.begins.symm, by rw [isLoop.begins]; exact isLoop.ordered⟩
    rw [enters, isLoop.zeroes] at fetched
    cases fetched
  rcases Nat.lt_or_eq_of_le within.2 with before | same
  · exact absurd rfl (isLoop.unwritten pc loop.counting fetched within.1 before)
  · exact same

/-- A loop asks for no more iterations than a counter can count. -/
theorem max_le : loop.max.toNat ≤ maxSlot := by
  obtain ⟨_, wellFormed, _, _, member⟩ := Program.exists_layout isLoop.counts
  exact wellFormed.repeats _ _ _ member

/-- At the end of the loop control goes back to the body while there are iterations to go. -/
theorem pc_of_execute {next : Thread} {count : Nat}
    (counter : thread.memory.state[program.slotCount + loop.slot.toNat]? = some (count : Int))
    (executes : thread.execute program subject limit loop.counting = .ok (.proceed next)) :
    next.pc =
      if min (count + 1) maxSlot < loop.max.toNat then loop.zero + 5 else thread.pc + 13 := by
  have counts : thread.count (program.slotCount + loop.slot.toNat) loop.max.toNat loop.top.toNat
      (thread.pc + 13) = .ok (.proceed next) := executes
  rw [Thread.count_eq_ok counter] at counts
  obtain rfl := Effect.proceed.inj (Except.ok.inj counts)
  have more : min ((count : Int) + 1) (maxSlot : Int) < (loop.max.toNat : Int) ↔
      min (count + 1) maxSlot < loop.max.toNat := by omega
  simp only [more, ← isLoop.begins]

/-- Every thread within a loop has come there by iterations of the loop. -/
theorem placeInvariant (subject : Array α) (limit : StackLimit) (start : Nat) :
    PlaceInvariant program subject limit start
      fun pc path => loop.Contains pc → Iterates program subject limit start loop path where
  proceeds := by
    intro thread next path saved instruction history fetched executes iterates within
    by_cases inside : loop.Contains thread.pc
    · have before := iterates inside
      rcases Nat.lt_or_eq_of_le inside.2 with inBody | last
      · refine before.keep fun other same => ?_
        obtain rfl := Waypoint.executed.inj same
        exact isLoop.unwritten _ _ fetched inside.1 inBody
      · -- Control stays in the loop only while there are iterations to go.
        rw [last, isLoop.counts] at fetched
        obtain rfl := Option.some.inj fetched
        have goes := isLoop.pc_of_execute
          (before.getElem?_counter (Path.holdsAlong_counts loop.slot history).state) executes
        have stays := within.2
        have small := isLoop.max_le
        have one : Path.counted loop.slot (.executed loop.counting :: path) =
            Path.counted loop.slot path + 1 :=
          Path.counted_cons_of_counts (beq_self_eq_true loop.slot)
        refine before.cons (fun other same _ => (Waypoint.executed.inj same).symm) (.inr ?_)
        have unfinished := before.unfinished
        split at goes <;> omega
    · have enters := isLoop.entered _ _ _ fetched inside
        (Thread.performs_of_execute executes).leads within
      rw [enters, isLoop.zeroes] at fetched
      obtain rfl := Option.some.inj fetched
      exact .enter history enters
  resumes := by
    intro thread path saved target history fetched iterates within
    by_cases inside : loop.Contains thread.pc
    · have pushes : Iterates program subject limit start loop
          (.executed (.pushBacktrack target) :: path) :=
        (iterates inside).keep fun other same => by
          obtain rfl := Waypoint.executed.inj same
          exact nofun
      exact pushes.keep nofun
    · have enters := isLoop.entered _ _ _ fetched inside (.target rfl) within
      rw [enters, isLoop.zeroes] at fetched
      cases fetched

end IsLoop

end CountedLoop

/-- A slot that the program uses as a counter only holds how often the path has counted in it since
it was set to zero, up to the largest number of a slot, and so it does in every frame of the stack
with the path of the frame. A thread that leaves a counted loop at its end has come to the end of
the body exactly as often as the loop asks for, and at least once, since it entered the loop where
the counter is set to zero. -/
theorem Thread.History.counts_iterations (program : Program) (subject : Array α)
    (limit : StackLimit) (start : Nat) (thread : Thread) (path : Path) (saved : List Path)
    (history : History program subject limit start thread path saved) :
    (∀ slot, program.CountsIn slot →
      (.executed (.counterZero slot) ∈ path →
        thread.memory.state[program.slotCount + slot.toNat]? =
          some ((min (path.counted slot) maxSlot : Nat) : Int)) ∧
      ∃ frames, Stacked program.frameSize thread.memory.stack frames ∧
        List.Forall₂ (fun path frame => .executed (.counterZero slot) ∈ path →
          frame[program.slotCount + slot.toNat]? =
            some ((min (path.counted slot) maxSlot : Nat) : Int)) saved frames) ∧
    ∀ loop : CountedLoop, loop.IsLoop program → thread.pc = loop.next →
      ∀ after, thread.step program subject limit = .running after → after.pc = loop.next + 13 →
        (∃ outer,
          path = path.sinceZero loop.slot ++ .executed (.counterZero loop.slot) :: outer ∧
          ∃ entry others, History program subject limit start entry outer others ∧
            entry.pc = loop.zero) ∧
        (Path.sinceZero loop.slot (.executed loop.counting :: path)).count
            (.executed loop.counting) = max 1 loop.max.toNat ∧
        ∀ pc, program.fetch pc = some loop.counting → pc = loop.next := by
  constructor
  · intro slot counter
    obtain ⟨_, counts, frames, stacked, follow⟩ := Path.holdsAlong_counts slot history
    refine ⟨counts.getElem?_of_countsIn counter, frames, stacked, follow.imp ?_⟩
    intro path frame counts zeroed
    have same : Path.counted slot (.resumed :: path) = Path.counted slot path :=
      Path.counted_cons_of_silent nofun rfl
    rw [counts.getElem?_of_countsIn counter (List.mem_cons_of_mem _ zeroed), same]
  · intro loop isLoop last after continues leaves
    have place := ((isLoop.placeInvariant subject limit start).holdsAt
      (fun within => by have := within.1; omega) history).1
    have iterates := place ⟨by rw [last]; exact isLoop.ordered, Nat.le_of_eq last⟩
    obtain ⟨instruction, fetched, executes | ⟨memory, executes, _⟩⟩ :=
      executes_of_running continues
    · rw [last, isLoop.counts] at fetched
      obtain rfl := Option.some.inj fetched
      have goes := isLoop.pc_of_execute
        (iterates.getElem?_counter (Path.holdsAlong_counts loop.slot history).state) executes
      have small := isLoop.max_le
      have ordered := isLoop.ordered
      have unfinished := iterates.unfinished
      refine ⟨iterates.entry, ?_, fun pc => isLoop.eq_next_of_fetch⟩
      rw [Path.sinceZero_cons (by simp [CountedLoop.counting]), List.count_cons_self,
        iterates.count_counting]
      split at goes <;> omega
    · rw [last, isLoop.counts] at fetched
      obtain rfl := Option.some.inj fetched
      cases performs_of_execute executes with
      | fail tests => contradiction

/-- A loop of two iterations, whose body fails in the second one and takes its alternative. -/
theorem Thread.History.counts_iterations_resumed :
    ∃ program, Program.ofBytes [14, 0, 0, 0, 0, 16, 17, 0, 0, 0, 19, 97, 27, 19, 0, 0, 0, 19, 98, 15,
        0, 0, 0, 0, 2, 0, 0, 0, 5, 0, 0, 0, 29] 1 1 = .ok program ∧
      program.CountsIn 0 ∧ CountedLoop.IsLoop program ⟨0, 19, 0, 2, 5⟩ ∧
      ∃ thread path saved,
        History program (#[97, 98] : Array UInt8) Matcher.default.limit 0 thread path saved ∧
        thread.pc = 19 ∧ .resumed ∈ path ∧ thread.memory.state[program.slotCount + 0]? = some 1 ∧
        (Path.sinceZero 0 (.executed (.counterNext 0 2 5) :: path)).count
          (.executed (.counterNext 0 2 5)) = 2 := by
  have runs : ((Program.ofBytes [14, 0, 0, 0, 0, 16, 17, 0, 0, 0, 19, 97, 27, 19, 0, 0, 0, 19, 98,
      15, 0, 0, 0, 0, 2, 0, 0, 0, 5, 0, 0, 0, 29] 1 1).toOption.map fun program => decide (
        (∀ entry ∈ program.entries, entry.instruction.writtenSlot? = some 0 →
          entry.instruction = .counterZero 0 ∨ entry.instruction = .counterNext 0 2 5) ∧
        CountedLoop.IsLoop program ⟨0, 19, 0, 2, 5⟩ ∧
        Thread.initial program 0 .empty = .ok ⟨0, 0, ⟨#[0, -1, -1, -1], #[]⟩⟩ ∧
        Thread.track program (#[97, 98] : Array UInt8) Matcher.default.limit 8
            ⟨0, 0, ⟨#[0, -1, -1, -1], #[]⟩⟩ [] [] =
          some (⟨19, 2, ⟨#[0, 1, 1, 17], #[0, 0, 0, 17]⟩⟩,
            [.executed (.checkByte 98), .resumed, .executed (.pushBacktrack 17),
              .executed (.counterNext 0 2 5), .executed (.jump 19), .executed (.checkByte 97),
              .executed (.pushBacktrack 17), .executed (.counterZero 0)],
            [[.executed (.pushBacktrack 17), .executed (.counterZero 0)]]) ∧
        (⟨19, 2, ⟨#[0, 1, 1, 17], #[0, 0, 0, 17]⟩⟩ : Thread).step program
            (#[97, 98] : Array UInt8) Matcher.default.limit =
          .running ⟨32, 2, ⟨#[0, 1, 2, 17], #[0, 0, 0, 17]⟩⟩)) = some true := by
    decide +kernel
  obtain ⟨program, accepted, writes, isLoop, begins, tracked, leaves⟩ := exists_ok_of_decide runs
  have counter : program.CountsIn 0 := fun pc instruction fetched written =>
    (writes _ (Program.fetch_eq_some_iff.mp fetched) written).imp_right fun same => ⟨2, 5, same⟩
  have history := (History.start begins).of_track tracked
  obtain ⟨slots, loops⟩ := counts_iterations program _ _ _ _ _ _ history
  exact ⟨program, accepted, counter, isLoop, _, _, _, history, rfl, by decide,
    (slots 0 counter).1 (by decide), (loops _ isLoop rfl _ leaves rfl).2.1⟩

end RegexMachine
