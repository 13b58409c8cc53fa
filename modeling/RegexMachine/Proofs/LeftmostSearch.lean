import RegexMachine.Proofs.FilteredSearch
import RegexMachine.Proofs.Inversion

/-!
# Leftmost search

A search ends as the attempt at its leftmost candidate that does not fail, whatever earlier runs
left in the matcher. `Program.scan_iff` says so for any list of starts, and
`Matcher.execute_leftmost` for the candidates of a search, as they are seen by matching at each of
them with a matcher that has not run yet, and it says what a search leaves in the caller's buffer.
-/

namespace RegexMachine

variable {α : Type} [CodeUnit α]

section

variable {program : Program} {subject : Array α} {limit : StackLimit} {budget start : Nat}

/-- An attempt that matches reports both ends of every group of the program. -/
theorem size_of_attempt_matched {memory after : Memory} {slots : Array Int}
    (ends : attempt program subject limit budget start memory =
      some (.matched slots, after)) : slots.size = program.slotCount := by
  cases begins : Thread.initial program start memory with
  | error stop =>
    rw [attempt, begins] at ends
    cases stop <;> cases ends
  | ok first =>
    rw [attempt_of_initial begins] at ends
    obtain ⟨last, steps, final⟩ := Thread.exists_last_of_run ends
    obtain ⟨_, _, rfl⟩ := Thread.eq_of_initial begins
    obtain ⟨_, rfl⟩ := Thread.matched_of_ended final
    exact Program.size_reported (steps.sized (by simp))

/-- Whether the attempt at a start ends with an outcome, given the steps it needs. -/
def AttemptEnds (program : Program) (subject : Array α) (limit : StackLimit) (start : Nat)
    (outcome : Outcome) :
    Prop :=
  ∃ budget after, attempt program subject limit budget start .empty = some (outcome, after)

/-- How an attempt ends does not depend on the memory that it begins in. -/
theorem attemptEnds_iff {outcome : Outcome} (memory : Memory) :
    AttemptEnds program subject limit start outcome ↔ ∃ budget after,
      attempt program subject limit budget start memory = some (outcome, after) := by
  unfold AttemptEnds
  simp only [attempt_memory .empty memory]

/-- An attempt ends in one way. -/
theorem AttemptEnds.unique {outcome other : Outcome}
    (ends : AttemptEnds program subject limit start outcome)
    (again : AttemptEnds program subject limit start other) : outcome = other := by
  obtain ⟨budget, _, ends⟩ := ends
  obtain ⟨further, _, again⟩ := again
  have same := (attempt_of_le ends (Nat.le_max_left budget further)).symm.trans
    (attempt_of_le again (Nat.le_max_right budget further))
  exact congrArg Prod.fst (Option.some.inj same)

/-- Whether attempts at starts in order end with an outcome: that of the first one that does not
fail, or without a match. -/
inductive ScanEnds (program : Program) (subject : Array α) (limit : StackLimit) :
    List Nat → Outcome → Prop where
  | nil : ScanEnds program subject limit [] .unmatched
  | stop {start : Nat} {later : List Nat} {outcome : Outcome} (decisive : outcome ≠ .unmatched)
      (ends : AttemptEnds program subject limit start outcome) :
      ScanEnds program subject limit (start :: later) outcome
  | next {start : Nat} {later : List Nat} {outcome : Outcome}
      (fails : AttemptEnds program subject limit start .unmatched)
      (rest : ScanEnds program subject limit later outcome) :
      ScanEnds program subject limit (start :: later) outcome

namespace Program

/-- A search through starts ends, given the steps it needs, exactly as the attempts at them say,
whatever memory it begins in. -/
theorem scan_iff {starts : List Nat} {outcome : Outcome} (memory : Memory) :
    (∃ budget after,
      program.scan subject limit budget starts memory = some (outcome, after)) ↔
      ScanEnds program subject limit starts outcome := by
  constructor
  · rintro ⟨budget, after, ends⟩
    induction starts generalizing memory with
    | nil =>
      cases ends
      exact .nil
    | cons start later inductionHypothesis =>
      rw [scan] at ends
      split at ends
      · rename_i middle fails
        exact .next ((attemptEnds_iff memory).mpr ⟨budget, middle, fails⟩)
          (inductionHypothesis middle ends)
      · rename_i decisive
        refine .stop ?_ ((attemptEnds_iff memory).mpr ⟨budget, after, ends⟩)
        rintro rfl
        exact decisive after ends
  · intro ends
    induction ends generalizing memory with
    | nil => exact ⟨0, memory, rfl⟩
    | stop decisive ends =>
      obtain ⟨budget, after, tried⟩ := (attemptEnds_iff memory).mp ends
      refine ⟨budget, after, ?_⟩
      rw [scan, tried]
      split
      · rename_i same
        cases same
        contradiction
      · rfl
    | next fails _ inductionHypothesis =>
      obtain ⟨first, middle, tried⟩ := (attemptEnds_iff memory).mp fails
      obtain ⟨second, after, rest⟩ := inductionHypothesis middle
      refine ⟨max first second, after, ?_⟩
      rw [scan, attempt_of_le tried (Nat.le_max_left first second)]
      exact scan_of_le rest (Nat.le_max_right first second)

end Program

/-- Attempts at starts in ascending order end as the one at the least start that does not
fail. -/
theorem scanEnds_iff_of_pairwise {starts : List Nat} {outcome : Outcome}
    (ascending : starts.Pairwise (· < ·)) :
    ScanEnds program subject limit starts outcome ↔
      (∃ start ∈ starts, outcome ≠ .unmatched ∧
        AttemptEnds program subject limit start outcome ∧
        ∀ earlier ∈ starts, earlier < start →
          AttemptEnds program subject limit earlier .unmatched) ∨
      outcome = .unmatched ∧
        ∀ start ∈ starts, AttemptEnds program subject limit start .unmatched := by
  constructor
  · intro ends
    induction ends with
    | nil => exact .inr ⟨rfl, by simp⟩
    | @stop start later outcome decisive ends =>
      refine .inl ⟨start, List.mem_cons_self, decisive, ends, ?_⟩
      intro earlier member before
      rcases List.mem_cons.mp member with rfl | behind
      · exact absurd before (Nat.lt_irrefl _)
      · exact absurd before (Nat.lt_asymm ((List.pairwise_cons.mp ascending).1 earlier behind))
    | @next head later outcome fails _ inductionHypothesis =>
      rcases inductionHypothesis (List.pairwise_cons.mp ascending).2 with
        ⟨start, member, decisive, ends, before⟩ | ⟨rfl, others⟩
      · refine .inl ⟨start, List.mem_cons_of_mem _ member, decisive, ends, ?_⟩
        intro earlier tried below
        rcases List.mem_cons.mp tried with rfl | behind
        · exact fails
        · exact before earlier behind below
      · refine .inr ⟨rfl, ?_⟩
        intro start tried
        rcases List.mem_cons.mp tried with rfl | behind
        · exact fails
        · exact others start behind
  · intro leftmost
    induction starts with
    | nil =>
      rcases leftmost with ⟨start, member, _⟩ | ⟨rfl, _⟩
      · contradiction
      · exact .nil
    | cons head later inductionHypothesis =>
      obtain ⟨first, ascendingLater⟩ := List.pairwise_cons.mp ascending
      rcases leftmost with ⟨start, member, decisive, ends, before⟩ | ⟨rfl, others⟩
      · rcases List.mem_cons.mp member with rfl | behind
        · exact .stop decisive ends
        · refine .next (before head List.mem_cons_self (first start behind))
            (inductionHypothesis ascendingLater (.inl ⟨start, behind, decisive, ends, ?_⟩))
          exact fun earlier tried => before earlier (List.mem_cons_of_mem _ tried)
      · refine .next (others head List.mem_cons_self)
          (inductionHypothesis ascendingLater (.inr ⟨rfl, ?_⟩))
        exact fun start tried => others start (List.mem_cons_of_mem _ tried)

namespace Program

/-- Whether a search from an offset on has to try a start: one up to the end of the subject, and
with a filter one where a unit stands that the filter accepts. -/
def IsCandidate (program : Program) (subject : Array α) (offset start : Nat) : Prop :=
  offset ≤ start ∧
    match program.filter with
    | none => start ≤ subject.size
    | some filter => ∃ unit, unitAt? subject start = some unit ∧ filter.accepts unit = true

/-- A search tries the starts that it has to try. -/
theorem mem_candidates_iff {offset : Nat} :
    start ∈ program.candidates subject offset ↔ program.IsCandidate subject offset start := by
  rw [candidates, IsCandidate]
  cases program.filter with
  | none =>
    simp only [List.mem_range'_1]
    omega
  | some filter =>
    simp only [List.mem_filter, List.mem_range'_1]
    cases found : unitAt? subject start with
    | none => simp
    | some unit =>
      have within := lt_size_of_unitAt? found
      simp only [Option.some.injEq, exists_eq_left']
      constructor
      · rintro ⟨⟨behind, _⟩, accepted⟩
        exact ⟨behind, accepted⟩
      · rintro ⟨behind, accepted⟩
        exact ⟨⟨behind, by omega⟩, accepted⟩

/-- A search tries its starts in ascending order. -/
theorem pairwise_candidates (program : Program) (subject : Array α) (offset : Nat) :
    (program.candidates subject offset).Pairwise (· < ·) := by
  rw [candidates]
  split
  · exact List.pairwise_lt_range'
  · exact List.Pairwise.filter _ List.pairwise_lt_range'

/-- Every start that a search tries is within the subject. -/
theorem IsCandidate.le_size {offset : Nat} (candidate : program.IsCandidate subject offset start) :
    start ≤ subject.size := by
  obtain ⟨_, tried⟩ := candidate
  split at tried
  · exact tried
  · obtain ⟨unit, found, _⟩ := tried
    exact Nat.le_of_lt (lt_size_of_unitAt? found)

end Program

end

namespace Matcher

/-- A matcher with the same limits that has not run yet. -/
def renewed (matcher : Matcher) : Matcher :=
  { default with maxStack := matcher.maxStack, stackRoom := matcher.stackRoom }

/-- Whether runs at these starts, given the steps they need, end with this outcome and this content
of the caller's buffer. Searching and matching at an offset are such runs. -/
def RunsAt (matcher : Matcher) (program : Program) (subject : Array α) (buffer : Array Int)
    (starts : List Nat) (outcome : Outcome) (result : Array Int) : Prop :=
  ∃ budget after, matcher.runAt program subject buffer starts budget =
    some ⟨outcome, result, after⟩

/-- Whether matching at a start, given the steps it needs, ends with this outcome and this
content of the caller's buffer. -/
def ExecutesAt (matcher : Matcher) (program : Program) (subject : Array α) (buffer : Array Int)
    (start : Nat) (outcome : Outcome) (result : Array Int) : Prop :=
  ∃ budget after, matcher.executeAt program subject buffer start budget =
    some ⟨outcome, result, after⟩

variable {matcher : Matcher} {program : Program} {subject : Array α} {buffer result : Array Int}
  {offset start : Nat} {outcome : Outcome}

/-- Matching at a start that is not refused ends as the attempt there, and a match overwrites the
first cells of the buffer. -/
theorem executesAt_iff (accepted : program.refusal? subject buffer.size = none)
    (within : start ≤ subject.size) :
    matcher.ExecutesAt program subject buffer start outcome result ↔
      AttemptEnds program subject matcher.limit start outcome ∧
        result = overwrite buffer outcome := by
  rw [ExecutesAt, attemptEnds_iff matcher.memory]
  simp only [matcher.executeAt_eq accepted within, Option.map_eq_some_iff]
  constructor
  · rintro ⟨budget, _, ⟨ended, after⟩, tried, same⟩
    cases same
    exact ⟨⟨budget, after, tried⟩, rfl⟩
  · rintro ⟨⟨budget, after, tried⟩, rfl⟩
    exact ⟨budget, _, (outcome, after), tried, rfl⟩

/-- Runs that are not refused end as the attempts at their starts say, and a match overwrites the
first cells of the buffer. -/
theorem runsAt_iff {starts : List Nat} (accepted : program.refusal? subject buffer.size = none) :
    matcher.RunsAt program subject buffer starts outcome result ↔
      ScanEnds program subject matcher.limit starts outcome ∧
        result = overwrite buffer outcome := by
  rw [RunsAt, ← Program.scan_iff matcher.memory]
  simp only [runAt, accepted, Option.map_eq_some_iff]
  constructor
  · rintro ⟨budget, _, ⟨ended, after⟩, tried, same⟩
    cases same
    exact ⟨⟨budget, after, tried⟩, rfl⟩
  · rintro ⟨⟨budget, after, tried⟩, rfl⟩
    exact ⟨budget, _, (outcome, after), tried, rfl⟩

/-- Runs that are refused end at once, whatever their starts and the options of the matcher. -/
theorem runsAt_iff_of_refused {starts : List Nat} {fault : Fault}
    (refused : program.refusal? subject buffer.size = some fault) :
    matcher.RunsAt program subject buffer starts outcome result ↔
      outcome = .fault fault ∧ result = buffer := by
  simp only [RunsAt, runAt, refused, Option.some.injEq, Report.mk.injEq]
  constructor
  · rintro ⟨_, _, rfl, rfl, _⟩
    exact ⟨rfl, rfl⟩
  · rintro ⟨rfl, rfl⟩
    exact ⟨0, matcher, rfl, rfl, rfl⟩

/-- A search that is not refused ends as the attempts at its candidates say, and a match
overwrites the first cells of the buffer. -/
theorem executes_iff (accepted : program.refusal? subject buffer.size = none) :
    matcher.Executes program subject buffer offset outcome result ↔
      ScanEnds program subject matcher.limit (program.candidates subject offset) outcome ∧
        result = overwrite buffer outcome :=
  runsAt_iff accepted

/-- A search that is refused ends at once, whatever the options of the matcher. -/
theorem executes_iff_of_refused {fault : Fault}
    (refused : program.refusal? subject buffer.size = some fault) :
    matcher.Executes program subject buffer offset outcome result ↔
      outcome = .fault fault ∧ result = buffer :=
  runsAt_iff_of_refused refused

/-- A match at a start is that of the attempt there. -/
theorem attemptEnds_of_executesAt {slots : Array Int}
    (executes : matcher.ExecutesAt program subject buffer start (.matched slots) result) :
    start ≤ subject.size ∧
      AttemptEnds program subject matcher.limit start (.matched slots) := by
  cases refused : program.refusal? subject buffer.size with
  | some fault =>
    obtain ⟨budget, after, ends⟩ := executes
    rw [executeAt, runAt, refused] at ends
    cases ends
  | none =>
    by_cases within : start ≤ subject.size
    · exact ⟨within, ((executesAt_iff refused within).mp executes).1⟩
    · obtain ⟨budget, after, ends⟩ := executes
      rw [executeAt, runAt, refused, onlyStart, if_neg within] at ends
      cases ends

/-- A match that a search ends with is that of the attempt at a candidate. -/
theorem exists_candidate_of_executes {slots : Array Int}
    (executes : matcher.Executes program subject buffer offset (.matched slots) result) :
    ∃ start, program.IsCandidate subject offset start ∧
      AttemptEnds program subject matcher.limit start (.matched slots) := by
  cases refused : program.refusal? subject buffer.size with
  | some fault =>
    obtain ⟨budget, after, ends⟩ := executes
    rw [execute, runAt, refused] at ends
    cases ends
  | none =>
    obtain ⟨ends, _⟩ := (executes_iff refused).mp executes
    rcases (scanEnds_iff_of_pairwise (program.pairwise_candidates subject offset)).mp ends with
      ⟨start, member, _, tried, _⟩ | ⟨same, _⟩
    · exact ⟨start, Program.mem_candidates_iff.mp member, tried⟩
    · contradiction

/-- A search ends as matching does at its leftmost candidate where matching does not fail, and
without a match if there is none. It does not depend on what earlier runs left in the matcher. A
match overwrites exactly the cells of the groups in the caller's buffer, nothing else overwrites
any, and the outcome is the same in every buffer that is large enough. -/
theorem execute_leftmost (matcher : Matcher) (program : Program) (subject : Array α)
    (buffer : Array Int) (offset : Nat) (outcome : Outcome) (result : Array Int)
    (countable : program.frameCountable = true) (unitsFit : subject.size ≤ maxSlot)
    (room : program.slotCount ≤ buffer.size) :
    (matcher.Executes program subject buffer offset outcome result ↔
      (∃ start, program.IsCandidate subject offset start ∧ outcome ≠ .unmatched ∧
        matcher.renewed.ExecutesAt program subject buffer start outcome result ∧
        ∀ earlier, program.IsCandidate subject offset earlier → earlier < start →
          matcher.renewed.ExecutesAt program subject buffer earlier .unmatched buffer) ∨
      outcome = .unmatched ∧ result = buffer ∧
        ∀ start, program.IsCandidate subject offset start →
          matcher.renewed.ExecutesAt program subject buffer start .unmatched buffer) ∧
    (matcher.Executes program subject buffer offset outcome result →
      (∀ slots, outcome = .matched slots → slots.size = program.slotCount ∧
        result = slots ++ buffer.extract program.slotCount buffer.size) ∧
      ((∀ slots, outcome ≠ .matched slots) → result = buffer) ∧
      ∀ other : Array Int, program.slotCount ≤ other.size →
        ∃ written, matcher.Executes program subject other offset outcome written) := by
  have accepted : program.refusal? subject buffer.size = none :=
    Program.refusal?_eq_none_of_countable countable room unitsFit
  have ascending := program.pairwise_candidates subject offset
  -- Matching at a candidate, by a matcher that has not run, is the attempt there.
  have tries : ∀ start, program.IsCandidate subject offset start → ∀ outcome result,
      matcher.renewed.ExecutesAt program subject buffer start outcome result ↔
        AttemptEnds program subject matcher.limit start outcome ∧
          result = overwrite buffer outcome :=
    fun start candidate _ _ => executesAt_iff accepted candidate.le_size
  have fails : ∀ start, program.IsCandidate subject offset start →
      (matcher.renewed.ExecutesAt program subject buffer start .unmatched buffer ↔
        AttemptEnds program subject matcher.limit start .unmatched) :=
    fun start candidate => (tries start candidate _ _).trans (and_iff_left rfl)
  constructor
  · rw [executes_iff accepted, scanEnds_iff_of_pairwise ascending]
    simp only [Program.mem_candidates_iff]
    constructor
    · rintro ⟨⟨start, candidate, decisive, ends, before⟩ | ⟨rfl, others⟩, rfl⟩
      · exact .inl ⟨start, candidate, decisive, (tries start candidate _ _).mpr ⟨ends, rfl⟩,
          fun earlier tried below => (fails earlier tried).mpr (before earlier tried below)⟩
      · exact .inr ⟨rfl, rfl, fun start tried => (fails start tried).mpr (others start tried)⟩
    · rintro (⟨start, candidate, decisive, ends, before⟩ | ⟨rfl, rfl, others⟩)
      · obtain ⟨ended, written⟩ := (tries start candidate _ _).mp ends
        exact ⟨.inl ⟨start, candidate, decisive, ended,
          fun earlier tried below => (fails earlier tried).mp (before earlier tried below)⟩,
          written⟩
      · exact ⟨.inr ⟨rfl, fun start tried => (fails start tried).mp (others start tried)⟩, rfl⟩
  · intro executes
    obtain ⟨ends, written⟩ := (executes_iff accepted).mp executes
    refine ⟨?_, ?_, ?_⟩
    · rintro slots rfl
      obtain ⟨_, _, _, _, tried⟩ := exists_candidate_of_executes executes
      have sized := size_of_attempt_matched tried
      refine ⟨sized, ?_⟩
      rw [written, overwrite, sized]
    · intro noMatch
      cases outcome with
      | matched slots => exact absurd rfl (noMatch slots)
      | unmatched | error | fault => exact written
    · intro other otherRoom
      exact ⟨_, (executes_iff
        (Program.refusal?_eq_none_of_countable countable otherRoom unitsFit)).mpr ⟨ends, rfl⟩⟩

/-- A matcher that another program left a state and frames in finds the second unit of a
subject. -/
theorem execute_leftmost_reused :
    ∃ program, Program.ofBytes [19, 97, 29] 1 0 = .ok program ∧
      program.frameCountable = true ∧ program.slotCount ≤ (#[9, 9, 9] : Array Int).size ∧
      (⟨some 4, false, arrayLimit, ⟨#[5, 6, 7, 8, 9], #[1, 2]⟩⟩ : Matcher).Executes program
        (#[98, 97] : Array UInt8) #[9, 9, 9] 0 (.matched #[1, 2]) #[1, 2, 9] := by
  have runs : ((Program.ofBytes [19, 97, 29] 1 0).toOption.map fun program => decide
      (program.frameCountable = true ∧ program.slotCount = 2 ∧ program.filter = none ∧
        (Matcher.mk (some 4) false arrayLimit .empty).executeAt program (#[98, 97] : Array UInt8)
          #[9, 9, 9] 0 2 =
            some ⟨.unmatched, #[9, 9, 9], ⟨some 4, false, arrayLimit, ⟨#[0, -1, -1], #[]⟩⟩⟩ ∧
        (Matcher.mk (some 4) false arrayLimit .empty).executeAt program (#[98, 97] : Array UInt8)
          #[9, 9, 9] 1 2 =
            some ⟨.matched #[1, 2], #[1, 2, 9], ⟨some 4, false, arrayLimit, ⟨#[1, 2, -1], #[]⟩⟩⟩)) =
      some true := by
    decide +kernel
  obtain ⟨program, accepted, countable, slotCount, filter, atFirst, atSecond⟩ :=
    exists_ok_of_decide runs
  have room : program.slotCount ≤ (#[9, 9, 9] : Array Int).size := by
    rw [slotCount]
    decide
  refine ⟨program, accepted, countable, room,
    (execute_leftmost _ program #[98, 97] #[9, 9, 9] 0 _ _ countable (by decide) room).1.mpr
      (.inl ⟨1, ?_, by decide, ⟨2, _, atSecond⟩, ?_⟩)⟩
  · simp [Program.IsCandidate, filter]
  · intro earlier _ below
    obtain rfl : earlier = 0 := by omega
    exact ⟨2, _, atFirst⟩

end Matcher

end RegexMachine
