import Mathlib.Data.List.Forall2
import RegexMachine.Proofs.Inversion

/-!
# Paths of threads

The path of a thread are the instructions that led to it. Where a frame is resumed the path goes
back to the push that saved the frame, and what was executed since is not part of it.
`Thread.History` follows a run and the paths of its frames, and `PathInvariant.holdsAlong` concludes
from what single instructions and frames keep that the states of a run match their paths.
-/

namespace RegexMachine

variable {α : Type} [CodeUnit α]

/-- What stands on a path: an instruction that was executed, or a mark that the frame saved by the
instruction before it was resumed there. -/
inductive Waypoint where
  | executed (instruction : Instruction UInt32)
  | resumed
  deriving DecidableEq

/-- A path, with the latest waypoint first. -/
abbrev Path := List Waypoint

namespace Thread

/-- The paths of the frames that are still on a stack after it may have been cut. -/
def keptPaths (program : Program) (memory : Memory) (saved : List Path) : List Path :=
  saved.drop (saved.length - memory.depth program.frameSize)

/-- The paths of the frames on the stack after an instruction, which is the last one on the given
path: a push saves this path with its frame. -/
def savedPaths (program : Program) (memory : Memory) (instruction : Instruction UInt32)
    (path : Path) (saved : List Path) : List Path :=
  match instruction with
  | .pushBacktrack _ => path :: saved
  | _ => keptPaths program memory saved

/-- The threads that the attempt at a start reaches, with their paths and with those of the frames
on their stacks, the newest first. -/
inductive History (program : Program) (subject : Array α) (limit : StackLimit) (start : Nat) :
    Thread → Path → List Path → Prop where
  | start {memory : Memory} {first : Thread} (begins : initial program start memory = .ok first) :
      History program subject limit start first [] []
  | proceed {thread next : Thread} {path : Path} {saved : List Path}
      {instruction : Instruction UInt32}
      (prior : History program subject limit start thread path saved)
      (fetched : program.fetch thread.pc = some instruction)
      (executes : thread.execute program subject limit instruction = .ok (.proceed next)) :
      History program subject limit start next (.executed instruction :: path)
        (savedPaths program next.memory instruction (.executed instruction :: path) saved)
  | resume {thread : Thread} {memory : Memory} {path newest : Path} {saved older : List Path}
      {instruction : Instruction UInt32}
      (prior : History program subject limit start thread path saved)
      (fetched : program.fetch thread.pc = some instruction)
      (executes : thread.execute program subject limit instruction = .ok (.fail memory))
      (present : memory.hasFrame program.frameSize = true)
      (kept : keptPaths program memory saved = newest :: older) :
      History program subject limit start (memory.resumed program.frameSize) (.resumed :: newest)
        older

/-- A thread after a number of steps, with its path and those of its frames, unless the attempt
ends before. -/
def track (program : Program) (subject : Array α) (limit : StackLimit) :
    Nat → Thread → Path → List Path → Option (Thread × Path × List Path)
  | 0, thread, path, saved => some (thread, path, saved)
  | steps + 1, thread, path, saved =>
    match program.fetch thread.pc with
    | none => none
    | some instruction =>
      match thread.execute program subject limit instruction with
      | .ok (.proceed next) =>
        let executed := .executed instruction :: path
        next.track program subject limit steps executed
          (savedPaths program next.memory instruction executed saved)
      | .ok (.fail memory) =>
        match memory.hasFrame program.frameSize, keptPaths program memory saved with
        | true, newest :: older =>
          (memory.resumed program.frameSize).track program subject limit steps
            (.resumed :: newest) older
        | _, _ => none
      | _ => none

/-- The state of a thread has a property together with its path, and so have the frames of its
stack together with the paths that lead on from them when they are resumed. -/
structure HoldsAlong (program : Program) (holds : Path → Array Int → Prop) (thread : Thread)
    (path : Path) (saved : List Path) : Prop where
  sized : thread.memory.state.size = program.frameSize
  state : holds path thread.memory.state
  stack : ∃ frames, Stacked program.frameSize thread.memory.stack frames ∧
    List.Forall₂ (fun path frame => holds (.resumed :: path) frame) saved frames

end Thread

/-- A property of a path and a state that every instruction and every frame keeps. -/
structure PathInvariant (program : Program) (holds : Path → Array Int → Prop) : Prop where
  /-- An instruction that goes on keeps it. -/
  updated : ∀ {thread : Thread} {instruction : Instruction UInt32} {path : Path},
    program.fetch thread.pc = some instruction → instruction ≠ .success →
    thread.memory.state.size = program.frameSize → holds path thread.memory.state →
    holds (.executed instruction :: path) (thread.updated program instruction)
  /-- A frame that is resumed has it. -/
  framed : ∀ {position resume : Nat} {path : Path} {state : Array Int},
    state.size = program.frameSize → holds path state →
    holds (.resumed :: path) (Memory.frame program.frameSize position resume state)

variable {program : Program} {subject : Array α} {limit : StackLimit} {start : Nat}
  {thread : Thread}
  {path : Path} {saved : List Path} {holds : Path → Array Int → Prop}

namespace Thread

/-- The thread of a history is reached by the attempt. -/
theorem History.reachable (history : History program subject limit start thread path saved) :
    Reachable program subject limit start thread := by
  induction history with
  | start begins => exact ⟨_, _, begins, .refl⟩
  | proceed _ fetched executes inductionHypothesis =>
    obtain ⟨memory, first, begins, steps⟩ := inductionHypothesis
    exact ⟨memory, first, begins, steps.step (by rw [step_of_fetch fetched, executes]; rfl)⟩
  | resume _ fetched executes present _ inductionHypothesis =>
    obtain ⟨memory, first, begins, steps⟩ := inductionHypothesis
    refine ⟨memory, first, begins, steps.step ?_⟩
    rw [step_of_fetch fetched, executes]
    exact if_pos present

/-- Tracking a thread continues its history. -/
theorem History.of_track {steps : Nat} {last : Thread} {lastPath : Path} {lastSaved : List Path}
    (history : History program subject limit start thread path saved)
    (tracked : thread.track program subject limit steps path saved =
      some (last, lastPath, lastSaved)) :
    History program subject limit start last lastPath lastSaved := by
  induction steps generalizing thread path saved with
  | zero =>
    cases tracked
    exact history
  | succ steps inductionHypothesis =>
    rw [track] at tracked
    split at tracked
    · contradiction
    · rename_i instruction fetched
      split at tracked
      · rename_i next executes
        exact inductionHypothesis (history.proceed fetched executes) tracked
      · rename_i memory executes
        split at tracked
        · rename_i newest older present kept
          exact inductionHypothesis (history.resume fetched executes present kept) tracked
        · contradiction
      · contradiction

omit [CodeUnit α] in
/-- Instructions that leave the stack alone leave the saved paths alone. -/
theorem savedPaths_of_not_movesStack {memory : Memory} {instruction : Instruction UInt32}
    (keeps : instruction.movesStack = false) (path : Path) (saved : List Path) :
    savedPaths program memory instruction path saved = keptPaths program memory saved := by
  cases instruction with
  | pushBacktrack => contradiction
  | _ => rfl

/-- The frames of a stack that was cut keep their paths. -/
theorem forall₂_keptPaths {memory : Memory} {frames : List (Array Int)} (depth : Nat)
    (stacked : Stacked program.frameSize memory.stack frames)
    (follow : List.Forall₂ (fun path frame => holds (.resumed :: path) frame) saved frames) :
    List.Forall₂ (fun path frame => holds (.resumed :: path) frame)
      (keptPaths program (memory.cut (depth * program.frameSize)) saved)
      (frames.drop (frames.length - depth)) := by
  have cut : Stacked program.frameSize (memory.cut (depth * program.frameSize)).stack _ :=
    stacked.cut depth
  have same : saved.length - (memory.cut (depth * program.frameSize)).depth program.frameSize =
      frames.length - depth := by
    rw [Memory.depth_eq cut program.frameSize_pos, List.length_drop, follow.length_eq]
    omega
  rw [keptPaths, same]
  exact List.forall₂_drop _ follow

/-- The frames of a stack that was left alone keep their paths. -/
theorem keptPaths_eq {memory : Memory} {frames : List (Array Int)}
    (stacked : Stacked program.frameSize memory.stack frames)
    (follow : List.Forall₂ (fun path frame => holds (.resumed :: path) frame) saved frames) :
    keptPaths program memory saved = saved := by
  rw [keptPaths, Memory.depth_eq stacked program.frameSize_pos, follow.length_eq, Nat.sub_self,
    List.drop_zero]

/-- After an instruction that goes on the frames on the stack have the property, if a frame that the
instruction pushed has it. -/
theorem exists_frames_of_proceed {instruction : Instruction UInt32} {next : Thread}
    (performs : Performs program thread instruction (.proceed next))
    (sized : thread.memory.state.size = program.frameSize)
    (stack : ∃ frames, Stacked program.frameSize thread.memory.stack frames ∧
      List.Forall₂ (fun path frame => holds (.resumed :: path) frame) saved frames)
    (pushed : ∀ target, instruction = .pushBacktrack target →
      holds (.resumed :: .executed instruction :: path)
        (Memory.frame program.frameSize thread.position target.toNat thread.memory.state)) :
    ∃ frames, Stacked program.frameSize next.memory.stack frames ∧
      List.Forall₂ (fun path frame => holds (.resumed :: path) frame)
        (savedPaths program next.memory instruction (.executed instruction :: path) saved)
        frames := by
  obtain ⟨frames, stacked, follow⟩ := stack
  cases performs with
  | goOn keeps =>
    have same : keptPaths program ⟨thread.updated program instruction, thread.memory.stack⟩
        saved = saved := keptPaths_eq stacked follow
    refine ⟨frames, stacked, ?_⟩
    simpa only [savedPaths_of_not_movesStack keeps, same] using follow
  | push target =>
    exact ⟨_, Memory.stacked_pushed stacked sized _ _, .cons (pushed target rfl) follow⟩
  | leave => exact ⟨_, stacked.cut _, forall₂_keptPaths _ stacked follow⟩

/-- After a failure the frames that are left on a stack have the property. -/
theorem exists_frames_of_fail {instruction : Instruction UInt32} {memory : Memory}
    (performs : Performs program thread instruction (.fail memory))
    (stack : ∃ frames, Stacked program.frameSize thread.memory.stack frames ∧
      List.Forall₂ (fun path frame => holds (.resumed :: path) frame) saved frames) :
    ∃ frames, Stacked program.frameSize memory.stack frames ∧
      List.Forall₂ (fun path frame => holds (.resumed :: path) frame)
        (keptPaths program memory saved) frames := by
  obtain ⟨frames, stacked, follow⟩ := stack
  cases performs with
  | fail => exact ⟨frames, stacked, by rwa [keptPaths_eq stacked follow]⟩
  | abandon => exact ⟨_, stacked.cut _, forall₂_keptPaths _ stacked follow⟩

/-- After a failure of a thread the frames that are left on its stack have the property. -/
theorem HoldsAlong.of_fail (along : thread.HoldsAlong program holds path saved)
    {instruction : Instruction UInt32} {memory : Memory}
    (performs : Performs program thread instruction (.fail memory)) :
    ∃ frames, Stacked program.frameSize memory.stack frames ∧
      List.Forall₂ (fun path frame => holds (.resumed :: path) frame)
        (keptPaths program memory saved) frames :=
  exists_frames_of_fail performs along.stack

/-- The frame that a failure resumes has the property, and the frames below it keep theirs. -/
theorem exists_frame_of_resume {memory : Memory} {newest : Path} {older : List Path}
    (stack : ∃ frames, Stacked program.frameSize memory.stack frames ∧
      List.Forall₂ (fun path frame => holds (.resumed :: path) frame) (newest :: older) frames)
    (present : memory.hasFrame program.frameSize = true) :
    ∃ frame below, memory.resumed program.frameSize =
        ⟨(frame[program.frameSize - 1]?.getD unset).toNat, (frame[1]?.getD unset).toNat,
          ⟨frame, below⟩⟩ ∧
      frame.size = program.frameSize ∧ holds (.resumed :: newest) frame ∧
      ∃ frames, Stacked program.frameSize below frames ∧
        List.Forall₂ (fun path frame => holds (.resumed :: path) frame) older frames := by
  obtain ⟨frames, stacked, follow⟩ := stack
  obtain ⟨frame, below, stack, rfl, sized, olderStacked, resumes⟩ :=
    Memory.resumed_of_stacked stacked program.frameSize_pos present
  cases follow with
  | cons newestHolds olderFollow =>
    exact ⟨frame, stack, resumes, sized, newestHolds, below, olderStacked, olderFollow⟩

end Thread

namespace PathInvariant

open Thread

/-- The states of a run match their paths, and so do its frames. -/
theorem holdsAlong (invariant : PathInvariant program holds)
    (initially : holds []
      ((Array.replicate program.frameSize unset).setIfInBounds 0 (start : Int)))
    (history : History program subject limit start thread path saved) :
    thread.HoldsAlong program holds path saved := by
  -- The induction carries the frames along, because a failure takes its state from the newest one.
  induction history with
  | start begins =>
    obtain ⟨_, _, rfl⟩ := eq_of_initial begins
    exact ⟨by simp, initially, [], .empty, .nil⟩
  | @proceed thread next path saved instruction _ fetched executes inductionHypothesis =>
    obtain ⟨sized, state, stack⟩ := inductionHypothesis
    have goesOn := fun continues => invariant.updated fetched continues sized state
    have performs := performs_of_execute executes
    have frames := exists_frames_of_proceed performs sized stack (by
      rintro target rfl
      exact invariant.framed sized (goesOn nofun))
    cases performs with
    | goOn keeps leads =>
      have continues : instruction ≠ .success := by
        rintro rfl
        rcases leads.eq with ⟨⟨⟩, _⟩ | ⟨_, ⟨⟩, _⟩
      exact ⟨(size_updated _ _ _).trans sized, goesOn continues, frames⟩
    | push target => exact ⟨sized, goesOn nofun, frames⟩
    | leave => exact ⟨sized, goesOn nofun, frames⟩
  | resume _ fetched executes present kept inductionHypothesis =>
    have stack := inductionHypothesis.of_fail (performs_of_execute executes)
    rw [kept] at stack
    obtain ⟨frame, below, resumes, sized, newestHolds, frames⟩ :=
      exists_frame_of_resume stack present
    rw [resumes]
    exact ⟨sized, newestHolds, frames⟩

end PathInvariant

namespace Thread

/-- The stack of a thread has a frame for each of the paths that are saved. -/
theorem History.holdsAlong (history : History program subject limit start thread path saved) :
    thread.HoldsAlong program (fun _ _ => True) path saved :=
  PathInvariant.holdsAlong ⟨fun _ _ _ _ => trivial, fun _ _ => trivial⟩ trivial history

/-- Every thread that an attempt reaches has a history. -/
theorem Reachable.exists_history (reachable : Reachable program subject limit start thread) :
    ∃ path saved, History program subject limit start thread path saved := by
  obtain ⟨memory, first, begins, steps⟩ := reachable
  induction steps with
  | refl => exact ⟨[], [], .start begins⟩
  | @step thread next prior continues inductionHypothesis =>
    obtain ⟨path, saved, history⟩ := inductionHypothesis
    obtain ⟨instruction, fetched, executes | ⟨memory, executes, present, rfl⟩⟩ :=
      executes_of_running continues
    · exact ⟨_, _, history.proceed fetched executes⟩
    · obtain ⟨frames, stacked, follow⟩ :=
        history.holdsAlong.of_fail (performs_of_execute executes)
      obtain ⟨_, _, _, rfl, _⟩ :=
        Memory.resumed_of_stacked stacked program.frameSize_pos present
      generalize kept : keptPaths program memory saved = paths at follow
      cases follow with
      | cons => exact ⟨_, _, history.resume fetched executes present kept⟩

end Thread

end RegexMachine
