import RegexMachine.Proofs.LeadingFilter

/-!
# Searching with the leading filter

A search that tries only the starts which the leading filter accepts has the outcome of one that
tries them all. `Program.scan_filter` says that starts without a match may be left out of a
search, and `Program.leadingFilter_transparent` that a filter read off the program leaves out
no others.
-/

namespace RegexMachine

variable {α : Type} [CodeUnit α]

section

variable {program : Program} {subject : Array α} {limit : StackLimit} {budget start : Nat}

omit [CodeUnit α] in
/-- The thread that an attempt begins with does not depend on the memory. -/
theorem Thread.initial_memory (memory other : Memory) :
    initial program start memory = initial program start other := by
  simp [initial, Memory.reset]

/-- An attempt does not depend on the memory that it begins in. -/
theorem attempt_memory (memory other : Memory) :
    attempt program subject limit budget start memory =
      attempt program subject limit budget start other := by
  rw [attempt, attempt, Thread.initial_memory memory other]

/-- A run does not look at the filter. -/
theorem Thread.run_withFilter (filter : Option Filter) (thread : Thread) :
    thread.run (program.withFilter filter) subject limit budget =
      thread.run program subject limit budget := by
  induction budget generalizing thread with
  | zero => rfl
  | succ budget inductionHypothesis =>
    have same : thread.step (program.withFilter filter) subject limit =
        thread.step program subject limit := rfl
    rw [run_succ, run_succ, same]
    cases thread.step program subject limit with
    | running next => exact inductionHypothesis next
    | ended outcome memory => rfl

/-- An attempt does not look at the filter. -/
theorem attempt_withFilter (filter : Option Filter) (memory : Memory) :
    attempt (program.withFilter filter) subject limit budget start memory =
      attempt program subject limit budget start memory := by
  have same : Thread.initial (program.withFilter filter) start memory =
      Thread.initial program start memory := rfl
  rw [attempt, attempt, same]
  simp only [Thread.run_withFilter]

namespace Program

/-- A search through given starts does not look at the filter. -/
theorem scan_withFilter (filter : Option Filter) (starts : List Nat) (memory : Memory) :
    (program.withFilter filter).scan subject limit budget starts memory =
      program.scan subject limit budget starts memory := by
  induction starts generalizing memory with
  | nil => rfl
  | cons start later inductionHypothesis =>
    rw [scan, scan, attempt_withFilter]
    simp only [inductionHypothesis]

/-- A search has the same outcome if starts at which attempts fail are left out. -/
theorem scan_filter {kept : Nat → Bool} {starts : List Nat}
    (fails : ∀ start ∈ starts, kept start = false → ∀ memory, ∃ after,
      attempt program subject limit budget start memory = some (.unmatched, after))
    (memory other : Memory) :
    (program.scan subject limit budget (starts.filter kept) memory).map Prod.fst =
      (program.scan subject limit budget starts other).map Prod.fst := by
  induction starts generalizing memory other with
  | nil => rfl
  | cons start later inductionHypothesis =>
    have failsLater := fun start member => fails start (List.mem_cons_of_mem _ member)
    cases tried : kept start with
    | false =>
      obtain ⟨after, ends⟩ := fails start List.mem_cons_self tried other
      rw [List.filter_cons_of_neg (by simp [tried]), inductionHypothesis failsLater memory after]
      simp only [scan, ends]
    | true =>
      rw [List.filter_cons_of_pos tried, scan, scan, attempt_memory memory other]
      split
      · exact inductionHypothesis failsLater _ _
      · rfl

/-- A larger budget changes nothing about a search that ends. -/
theorem scan_of_le {starts : List Nat} {memory : Memory} {ended : Outcome × Memory} {more : Nat}
    (ends : program.scan subject limit budget starts memory = some ended)
    (enough : budget ≤ more) :
    program.scan subject limit more starts memory = some ended := by
  induction starts generalizing memory with
  | nil => exact ends
  | cons start later inductionHypothesis =>
    rw [scan] at ends ⊢
    cases tried : attempt program subject limit budget start memory with
    | none =>
      rw [tried] at ends
      contradiction
    | some result =>
      rw [tried] at ends
      rw [attempt_of_le tried enough]
      obtain ⟨outcome, after⟩ := result
      cases outcome with
      | unmatched => exact inductionHypothesis ends
      | matched | error | fault => exact ends

/-- Whether a search with a filter tries a start. -/
def triesStart (filter : Filter) (subject : Array α) (start : Nat) : Bool :=
  match unitAt? subject start with
  | none => false
  | some unit => filter.accepts unit

/-- A start that is not tried is one that the filter rejects. -/
theorem rejects_of_triesStart {filter : Filter}
    (skipped : triesStart filter subject start = false) : filter.Rejects subject start := by
  intro unit found
  rw [triesStart, found] at skipped
  exact skipped

/-- With a filter a search tries the starts that it would try without one and that the filter
does not reject. The end of the subject is none of these. -/
theorem candidates_withFilter (filter : Filter) (offset : Nat) :
    (program.withFilter (some filter)).candidates subject offset =
      ((program.withFilter none).candidates subject offset).filter
        (triesStart filter subject) := by
  have tests : (program.withFilter (some filter)).candidates subject offset =
      (List.range' offset (subject.size - offset)).filter (triesStart filter subject) := rfl
  have all : (program.withFilter none).candidates subject offset =
      List.range' offset (subject.size + 1 - offset) := rfl
  rw [tests, all]
  by_cases within : offset ≤ subject.size
  · have atEnd : triesStart filter subject subject.size = false := by
      rw [triesStart, unitAt?_eq_none_iff.mpr (Nat.le_refl _)]
    rw [Nat.succ_sub within, List.range'_concat, List.filter_append, Nat.one_mul,
      Nat.add_sub_cancel' within, List.filter_cons_of_neg (by simp [atEnd]), List.filter_nil,
      List.append_nil]
  · rw [Nat.sub_eq_zero_of_le (by omega), Nat.sub_eq_zero_of_le (by omega)]

/-- Every start that a search without a filter tries is within the subject. -/
theorem le_size_of_mem_candidates {offset : Nat}
    (member : start ∈ (program.withFilter none).candidates subject offset) :
    start ≤ subject.size := by
  have all : (program.withFilter none).candidates subject offset =
      List.range' offset (subject.size + 1 - offset) := rfl
  rw [all, List.mem_range'_1] at member
  omega

end Program

end

namespace Matcher

/-- Whether a search that has the steps for its attempts ends with this outcome and this content
of the caller's buffer. A search that goes on for ever has no outcome. -/
def Executes (matcher : Matcher) (program : Program) (subject : Array α) (buffer : Array Int)
    (offset : Nat) (outcome : Outcome) (result : Array Int) : Prop :=
  ∃ budget after, matcher.execute program subject buffer offset budget =
    some ⟨outcome, result, after⟩

/-- The same for a search in a buffer that is made for it. -/
def Searches (matcher : Matcher) (program : Program) (subject : Array α) (offset : Nat)
    (outcome : Outcome) (result : Array Int) : Prop :=
  ∃ budget after, matcher.search program subject offset budget = some ⟨outcome, result, after⟩

variable {matcher : Matcher} {program : Program} {subject : Array α} {buffer : Array Int}
  {offset budget : Nat}

/-- A larger budget changes nothing about a search that ends. -/
theorem execute_of_le {report : Report} {more : Nat}
    (ends : matcher.execute program subject buffer offset budget = some report)
    (enough : budget ≤ more) :
    matcher.execute program subject buffer offset more = some report := by
  rw [execute, runAt] at ends ⊢
  cases refused : program.refusal? subject buffer.size with
  | some fault =>
    rw [refused] at ends
    exact ends
  | none =>
    rw [refused] at ends
    obtain ⟨ended, scanned, reported⟩ := Option.map_eq_some_iff.mp ends
    exact Option.map_eq_some_iff.mpr ⟨ended, Program.scan_of_le scanned enough, reported⟩

/-- What a search reports to its caller, apart from the matcher: how the scan ends. -/
theorem map_execute (filter : Option Filter)
    (accepted : program.refusal? subject buffer.size = none) :
    (matcher.execute (program.withFilter filter) subject buffer offset budget).map
        (fun report => (report.outcome, report.buffer)) =
      ((program.scan subject matcher.limit budget
        ((program.withFilter filter).candidates subject offset) matcher.memory).map
          Prod.fst).map fun outcome => (outcome, overwrite buffer outcome) := by
  have notRefused : (program.withFilter filter).refusal? subject buffer.size = none := accepted
  rw [execute, runAt, notRefused, Program.scan_withFilter, Option.map_map, Option.map_map]
  rfl

/-- Given as many steps as the program has instructions, a search with the leading filter
reports what one without a filter does. -/
theorem map_execute_leadingFilter (fits : program.frameFits = true) {filter : Filter}
    (derived : program.leadingFilter? = some filter) (enough : program.entries.length ≤ budget) :
    (matcher.execute (program.withFilter (some filter)) subject buffer offset budget).map
        (fun report => (report.outcome, report.buffer)) =
      (matcher.execute (program.withFilter none) subject buffer offset budget).map
        (fun report => (report.outcome, report.buffer)) := by
  cases refused : program.refusal? subject buffer.size with
  | some fault =>
    have filtered : (program.withFilter (some filter)).refusal? subject buffer.size =
        some fault := refused
    have plain : (program.withFilter none).refusal? subject buffer.size = some fault := refused
    rw [execute, execute, runAt, runAt, filtered, plain]
  | none =>
    have unitsFit := Program.size_le_of_refusal? refused
    have fails : ∀ start ∈ (program.withFilter none).candidates subject offset,
        Program.triesStart filter subject start = false → ∀ memory, ∃ after,
          attempt program subject matcher.limit budget start memory =
            some (.unmatched, after) := by
      intro start member skipped memory
      obtain ⟨after, ends, _⟩ := Program.attempt_rejected fits unitsFit
        (Program.le_size_of_mem_candidates member) derived
        (Program.rejects_of_triesStart skipped) enough memory
      exact ⟨after, ends⟩
    rw [map_execute _ refused, map_execute _ refused, Program.candidates_withFilter,
      Program.scan_filter fails]

/-- A search ends as another one does that reports the same from a budget on. -/
theorem Executes.congr {other : Program} {enough : Nat} {outcome : Outcome} {result : Array Int}
    (same : ∀ budget, enough ≤ budget →
      (matcher.execute program subject buffer offset budget).map
          (fun report => (report.outcome, report.buffer)) =
        (matcher.execute other subject buffer offset budget).map
          (fun report => (report.outcome, report.buffer)))
    (executes : matcher.Executes program subject buffer offset outcome result) :
    matcher.Executes other subject buffer offset outcome result := by
  obtain ⟨budget, after, ends⟩ := executes
  have further := execute_of_le ends (Nat.le_max_left budget enough)
  have reported := same _ (Nat.le_max_right budget enough)
  rw [further, Option.map_some] at reported
  obtain ⟨⟨_, _, left⟩, ended, seen⟩ := Option.map_eq_some_iff.mp reported.symm
  obtain ⟨rfl, rfl⟩ := Prod.mk.inj seen
  exact ⟨_, left, ended⟩

/-- A search with the leading filter ends as one without a filter. -/
theorem executes_leadingFilter_iff (fits : program.frameFits = true) {outcome : Outcome}
    {result : Array Int} :
    matcher.Executes (program.withFilter program.leadingFilter?) subject buffer offset outcome
        result ↔
      matcher.Executes (program.withFilter none) subject buffer offset outcome result := by
  cases derived : program.leadingFilter? with
  | none => exact Iff.rfl
  | some filter =>
    constructor
    · exact Executes.congr fun _ enough => map_execute_leadingFilter fits derived enough
    · exact Executes.congr fun _ enough => (map_execute_leadingFilter fits derived enough).symm

/-- The same in a buffer that is made for the search. -/
theorem searches_leadingFilter_iff (fits : program.frameFits = true) {outcome : Outcome}
    {result : Array Int} :
    matcher.Searches (program.withFilter program.leadingFilter?) subject offset outcome
        result ↔
      matcher.Searches (program.withFilter none) subject offset outcome result := by
  have made : ∀ filter, (program.withFilter filter).newBuffer? = program.newBuffer? :=
    fun _ => rfl
  unfold Searches search
  rw [made, made]
  cases program.newBuffer? with
  | none => exact Iff.rfl
  | some buffer => exact executes_leadingFilter_iff fits

end Matcher

namespace Program

/-- Whether the leading filter of a program changes nothing about searches in a subject: they
have the same outcomes, with the same ends of the groups and the same errors and faults, or go
on for ever both with the filter and without one. -/
def IsFilterTransparent (program : Program) (subject : Array α) : Prop :=
  ∀ (matcher : Matcher) (offset : Nat) (outcome : Outcome) (result : Array Int),
    (∀ buffer,
      matcher.Executes (program.withFilter program.leadingFilter?) subject buffer offset outcome
          result ↔
        matcher.Executes (program.withFilter none) subject buffer offset outcome result) ∧
    (matcher.Searches (program.withFilter program.leadingFilter?) subject offset outcome
        result ↔
      matcher.Searches (program.withFilter none) subject offset outcome result)

/-- The leading filter changes nothing about a search, and every start that it makes a search
skip is one at which an attempt fails without having pushed a frame. -/
theorem leadingFilter_transparent (program : Program) (subject : Array α)
    (fits : program.frameFits = true) :
    program.IsFilterTransparent subject ∧
    ∀ filter, program.leadingFilter? = some filter → subject.size ≤ maxSlot →
      ∀ offset, ∀ start ∈ (program.withFilter none).candidates subject offset,
        start ∉ (program.withFilter (some filter)).candidates subject offset →
        (∀ limit memory, ∃ budget after,
          attempt program subject limit budget start memory = some (.unmatched, after) ∧
            after.stack = #[]) ∧
        ∀ limit thread, Thread.Reachable program subject limit start thread →
          thread.memory.stack = #[] := by
  constructor
  · intro matcher offset outcome result
    exact ⟨fun buffer => Matcher.executes_leadingFilter_iff fits,
      Matcher.searches_leadingFilter_iff fits⟩
  · intro filter derived unitsFit offset start member skipped
    have within := le_size_of_mem_candidates member
    have rejects : filter.Rejects subject start := by
      apply rejects_of_triesStart
      rw [candidates_withFilter, List.mem_filter, not_and, Bool.not_eq_true] at skipped
      exact skipped member
    constructor
    · intro limit memory
      obtain ⟨after, ends, frameless⟩ := attempt_rejected fits unitsFit within derived rejects
        (Nat.le_refl program.entries.length) memory
      exact ⟨_, after, ends, frameless⟩
    · exact fun limit thread => frameless_of_reachable unitsFit within derived rejects

/-- A literal with letter case ignored, in a subject where it stands. -/
theorem leadingFilter_transparent_literal :
    ∃ program, ofBytes [26, 1, 0, 0, 0, 97, 0, 29] 1 0 = .ok program ∧
      (program.withIgnoreCase true).frameFits = true ∧
      (program.withIgnoreCase true).IsFilterTransparent (#[98, 65] : Array UInt8) := by
  have valid : error? [26, 1, 0, 0, 0, 97, 0, 29] 1 0 = none := by
    decide +kernel
  obtain ⟨program, accepted, _, captures, counters, _⟩ := exists_ofBytes valid
  have fits : program.frameFits = true := by
    rw [frameFits, frameSize, slotCount, captures, counters]
    decide
  exact ⟨program, accepted, fits,
    (leadingFilter_transparent (program.withIgnoreCase true) #[98, 65] fits).1⟩

/-- A program whose frames can be counted but not made breaks off only where an attempt is
made. -/
theorem not_isFilterTransparent_frameTooLarge :
    ∃ program, ofBytes [19, 97, 29] 1 0x2000000000000000 = .ok program ∧
      program.frameCountable = true ∧
      ¬ program.IsFilterTransparent (#[98] : Array UInt8) := by
  have valid : error? [19, 97, 29] 1 0x2000000000000000 = none := by
    decide +kernel
  obtain ⟨program, accepted, _, captures, counters, entries⟩ := exists_ofBytes valid
  have countable : program.frameCountable = true := by
    rw [frameCountable, frameSize, slotCount, captures, counters]
    decide
  have tooLarge : program.frameFits = false := by
    rw [frameFits, frameSize, slotCount, captures, counters]
    decide
  have listed : program.entries = [⟨0, .checkByte 97⟩, ⟨2, .success⟩] := by
    rw [entries]
    decide +kernel
  have derived : program.leadingFilter? = some (.one 97) := by
    rw [leadingFilter?, listed]
    rfl
  have notRefused :
      program.refusal? (#[98] : Array UInt8) (#[0, 0] : Array Int).size = none := by
    rw [refusal?, slotCount, captures]
    decide
  refine ⟨program, accepted, countable, ?_⟩
  intro transparent
  have filtered : Matcher.default.Executes (program.withFilter program.leadingFilter?)
      (#[98] : Array UInt8) #[0, 0] 0 .unmatched #[0, 0] := by
    rw [derived]
    refine ⟨0, Matcher.default, ?_⟩
    have again : (program.withFilter (some (.one 97))).refusal? (#[98] : Array UInt8)
        (#[0, 0] : Array Int).size = none := notRefused
    rw [Matcher.execute, Matcher.runAt, again]
    rfl
  obtain ⟨budget, after, ends⟩ :=
    ((transparent Matcher.default 0 .unmatched #[0, 0]).1 #[0, 0]).mp filtered
  have again : (program.withFilter none).refusal? (#[98] : Array UInt8)
      (#[0, 0] : Array Int).size = none := notRefused
  have starts : (program.withFilter none).candidates (#[98] : Array UInt8) 0 = [0, 1] := rfl
  have unmade : (program.withFilter none).frameFits = false := tooLarge
  rw [Matcher.execute, Matcher.runAt, again, starts, scan, attempt_of_not_frameFits unmade]
    at ends
  cases ends

end Program

end RegexMachine
