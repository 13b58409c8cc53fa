import Mathlib.Data.Finset.Card
import RegexMachine.Proofs.Effects
import RegexMachine.Proofs.EncodingPrefixes
import RegexMachine.Proofs.FilterCover
import RegexMachine.Proofs.FinishErrors
import RegexMachine.Proofs.Runs

/-!
# Range tables as sets of units

A table that is in order (`UnitRange.InOrder`) stands for the set of units in its ranges. Its search
ends early and still misses none of them, because everything behind the first range above a unit
is above the unit too (`UnitRange.anyHolds_iff`). Its count is the number of units in the set,
because no unit lies in two ranges (`UnitRange.totalCount_eq_distinct`), and so it is never too
large to be written. `UnitRange.table_exact` follows a table from the directive that appends it
through the bytes of the finished program to the effect of its instruction.
-/

namespace RegexMachine

open LittleEndian

namespace UnitRange

variable {ranges : List UnitRange} {unit : UInt16}

/-- Tables whose ranges are proper, sorted and disjoint. -/
structure InOrder (ranges : List UnitRange) : Prop where
  proper : ∀ range ∈ ranges, range.first ≤ range.last
  sorted : ranges.Pairwise fun left right => left.first ≤ right.first
  disjoint : ranges.Pairwise fun left right => ∀ unit ∈ left.units, unit ∉ right.units

/-- The number of different units in the ranges of a table. -/
def distinct (ranges : List UnitRange) : Nat :=
  (ranges.flatMap units).toFinset.card

/-- The units in the ranges of a table lie between the bounds of one of them. -/
theorem mem_flatMap_units_iff :
    unit ∈ ranges.flatMap units ↔ ∃ range ∈ ranges, range.first ≤ unit ∧ unit ≤ range.last := by
  simp only [List.mem_flatMap, mem_units_iff]

/-- A table is in order if each of its ranges ends before the later ones begin. -/
theorem InOrder.of_apart (proper : ∀ range ∈ ranges, range.first ≤ range.last)
    (apart : ranges.Pairwise fun left right => left.last < right.first) : InOrder ranges where
  proper := proper
  sorted := apart.imp_of_mem fun leftMember _ before =>
    UInt16.le_of_lt (UInt16.lt_of_le_of_lt (proper _ leftMember) before)
  disjoint := apart.imp fun before _ inLeft inRight =>
    UInt16.not_lt.mpr (mem_units_iff.mp inLeft).2
      (UInt16.lt_of_lt_of_le before (mem_units_iff.mp inRight).1)

/-- A sorted table holds the units in its ranges. -/
theorem anyHolds_iff (sorted : ranges.Pairwise fun left right => left.first ≤ right.first) :
    anyHolds ranges unit = true ↔ unit ∈ ranges.flatMap units := by
  constructor
  · intro holds
    exact mem_flatMap_units_iff.mpr (exists_of_anyHolds holds)
  · rw [mem_flatMap_units_iff]
    induction ranges with
    | nil => simp
    | cons head later inductionHypothesis =>
      rintro ⟨range, member, atLeast, atMost⟩
      obtain ⟨below, laterSorted⟩ := List.pairwise_cons.mp sorted
      -- The ranges behind the head begin at or above it, so the first exit loses none of them.
      have reached : head.first ≤ unit := by
        rcases List.mem_cons.mp member with rfl | behind
        · exact atLeast
        · exact UInt16.le_trans (below range behind) atLeast
      rw [anyHolds, if_neg (UInt16.not_lt.mpr reached)]
      split
      · rfl
      · rename_i beyond
        rcases List.mem_cons.mp member with rfl | behind
        · exact absurd atMost beyond
        · exact inductionHypothesis laterSorted ⟨range, behind, atLeast, atMost⟩

/-- The units of a range are listed once each. -/
theorem nodup_units (range : UnitRange) : range.units.Nodup := by
  refine List.Nodup.map_on ?_ List.nodup_range'
  intro left leftMember right rightMember same
  have bound := range.last.toNat_lt
  rw [List.mem_range'_1] at leftMember rightMember
  have values := congrArg UInt16.toNat same
  rw [UInt16.toNat_ofNat_of_lt' (by simp only [UInt16.size]; omega),
    UInt16.toNat_ofNat_of_lt' (by simp only [UInt16.size]; omega)] at values
  exact values

/-- A table has as many units as its ranges have one by one. -/
theorem totalCount_eq_length (proper : ∀ range ∈ ranges, range.first ≤ range.last) :
    totalCount ranges = (ranges.flatMap units).length := by
  induction ranges with
  | nil => rfl
  | cons head later inductionHypothesis =>
    have ordered := UInt16.le_iff_toNat_le.mp (proper head List.mem_cons_self)
    rw [totalCount, inductionHypothesis fun range member =>
      proper range (List.mem_cons_of_mem _ member), List.flatMap_cons, List.length_append, units,
      List.length_map, List.length_range']
    omega

/-- Every range of a table counts. -/
theorem length_le_totalCount (ranges : List UnitRange) : ranges.length ≤ totalCount ranges := by
  induction ranges with
  | nil => exact Nat.le_refl _
  | cons head later inductionHypothesis =>
    rw [List.length_cons, totalCount]
    omega

namespace InOrder

variable (inOrder : InOrder ranges)
include inOrder

/-- No unit of a table in order lies in two of its ranges. -/
theorem nodup_flatMap_units : (ranges.flatMap units).Nodup :=
  List.nodup_flatMap.mpr ⟨fun range _ => range.nodup_units, inOrder.disjoint⟩

/-- The count of a table in order is the number of different units in its ranges. -/
theorem totalCount_eq_distinct : totalCount ranges = distinct ranges := by
  rw [totalCount_eq_length inOrder.proper, distinct,
    List.toFinset_card_of_nodup inOrder.nodup_flatMap_units]

/-- There are not more units than a half word has values. -/
theorem distinct_le : distinct ranges ≤ 65536 := by
  have values : ((ranges.flatMap units).map UInt16.toNat).Nodup :=
    inOrder.nodup_flatMap_units.map fun _ _ => UInt16.toNat_inj.mp
  have small : (ranges.flatMap units).map UInt16.toNat ⊆ List.range 65536 := by
    intro value member
    obtain ⟨unit, _, rfl⟩ := List.mem_map.mp member
    exact List.mem_range.mpr unit.toNat_lt
  have bound := (List.subperm_of_subset values small).length_le
  rwa [List.length_map, List.length_range,
    ← List.toFinset_card_of_nodup inOrder.nodup_flatMap_units] at bound

/-- The units of a table in order can be counted in a word. -/
theorem tableCount_eq_ok : tableCount ranges = .ok (UInt32.ofNat (distinct ranges)) := by
  have bound := inOrder.distinct_le
  have proper : ¬ ranges.any (fun range => range.last < range.first) = true := by
    simpa using inOrder.proper
  rw [tableCount, if_neg proper]
  simp only [inOrder.totalCount_eq_distinct]
  rw [if_pos (by rw [wordLimit]; omega)]

/-- The number of units in a table in order fits a word. -/
theorem toNat_ofNat_distinct : (UInt32.ofNat (distinct ranges)).toNat = distinct ranges := by
  have bound := inOrder.distinct_le
  exact toNat_ofNat_of_lt_wordLimit (by rw [wordLimit]; omega)

end InOrder

/-- Whether a check of a table accepts the unit at a position of a subject: there is one, and it is
inside the ranges, or outside if the check is inverted. -/
def Accepts {α : Type} [CodeUnit α] (ranges : List UnitRange) (inverted : Bool)
    (subject : Array α) (position : Nat) : Prop :=
  ∃ unit, unitAt? subject position = some unit ∧
    (unit ∈ ranges.flatMap units ↔ inverted = false)

/-- A sorted table is checked for what is accepted. -/
theorem unitPasses_iff_accepts {α : Type} [CodeUnit α] {inverted : Bool} {subject : Array α}
    {position : Nat} (sorted : ranges.Pairwise fun left right => left.first ≤ right.first) :
    Thread.unitPasses subject position (fun unit => anyHolds ranges unit != inverted) = true ↔
      Accepts ranges inverted subject position := by
  rw [Thread.unitPasses_iff, Accepts]
  simp only [← anyHolds_iff sorted]
  cases inverted <;> simp

/-- What a table is from the directive that appends it to the step that checks it. -/
structure Faithful (ranges : List UnitRange) (count : UInt32) : Prop where
  /-- The count of the table is the number of different units in its ranges. -/
  counted : count.toNat = distinct ranges
  /-- There are not more units than a half word has values. -/
  small : count.toNat ≤ 65536
  /-- The table can be appended to every assembly. -/
  appended : ∀ (assembly : Assembly) inverted,
    assembly.apply (.emitRanges ranges inverted) =
      .ok (assembly.append (.checkRange ranges count inverted))
  /-- The table is read from a finished program where it was appended. -/
  decoded : ∀ before after inverted captures counters prior final program,
    Assembly.empty.applyAll before = .ok prior →
    Assembly.empty.applyAll (before ++ .emitRanges ranges inverted :: after) = .ok final →
    final.finish captures counters = .ok program →
      Instruction.decodeAt program.bytes prior.pc =
          .ok (.checkRange ranges count inverted, 9 + 4 * ranges.length) ∧
        program.fetch prior.pc = some (.checkRange ranges count inverted)
  held : ∀ unit, anyHolds ranges unit = true ↔
    ∃ range ∈ ranges, range.first ≤ unit ∧ unit ≤ range.last
  /-- A thread at a check of the table, whatever its count, consumes a unit that is accepted. -/
  consumes : ∀ {α : Type} [CodeUnit α] (program : Program) (subject : Array α) (limit : StackLimit)
    (recorded : UInt32) (inverted : Bool) (thread : Thread),
    program.fetch thread.pc = some (.checkRange ranges recorded inverted) →
    Accepts ranges inverted subject thread.position →
      thread.step program subject limit =
        .running ⟨thread.pc + (9 + 4 * ranges.length), thread.position + 1, thread.memory⟩
  /-- A thread at a check of the table fails if no unit is accepted. -/
  fails : ∀ {α : Type} [CodeUnit α] (program : Program) (subject : Array α) (limit : StackLimit)
    (recorded : UInt32) (inverted : Bool) (thread : Thread),
    program.fetch thread.pc = some (.checkRange ranges recorded inverted) →
    ¬ Accepts ranges inverted subject thread.position →
      thread.step program subject limit = .ofFailure program.frameSize thread.memory

end UnitRange

/-- The instruction at an offset of a program is what its bytes there are read as. -/
theorem Program.decodeAt_of_fetch {program : Program} {pc : Nat}
    {instruction : Instruction UInt32} (fetched : program.fetch pc = some instruction) :
    Instruction.decodeAt program.bytes pc = .ok (instruction, instruction.length) := by
  obtain ⟨instructions, wellFormed, _, located, member⟩ := exists_layout fetched
  obtain ⟨before, after, split, place⟩ := Located.mem_layout_iff.mp located
  refine Instruction.decodeAt_eq_ok_iff.mpr ⟨wellFormed.encodable _ member, rfl, ?_⟩
  have behind : pc = (before.flatMap Instruction.encode).length := by
    rw [Instruction.length_flatMap_encode]
    simpa using place
  rw [wellFormed.bytes_eq, split, List.flatMap_append, List.flatMap_cons, behind, List.drop_left]
  exact List.prefix_append _ _

namespace UnitRange.InOrder

variable {ranges : List UnitRange} (inOrder : InOrder ranges)
include inOrder

/-- A table in order can be appended to every assembly. -/
theorem apply_emitRanges (assembly : Assembly) (inverted : Bool) :
    assembly.apply (.emitRanges ranges inverted) =
      .ok (assembly.append (.checkRange ranges (.ofNat (distinct ranges)) inverted)) := by
  have size := length_le_totalCount ranges
  rw [inOrder.totalCount_eq_distinct] at size
  have bound := inOrder.distinct_le
  have writable : 4 * ranges.length < wordLimit := by
    rw [wordLimit]
    omega
  simp only [Assembly.apply, inOrder.tableCount_eq_ok, Assembly.emit, Instruction.misuse?,
    if_pos writable, Instruction.target?]

/-- A table in order stands in a finished program where it was appended. -/
theorem fetch_of_finish {before after : List Directive} {inverted : Bool}
    {captures counters : Nat} {prior final : Assembly} {program : Program}
    (reached : Assembly.empty.applyAll before = .ok prior)
    (applied : Assembly.empty.applyAll (before ++ .emitRanges ranges inverted :: after) =
      .ok final)
    (finished : final.finish captures counters = .ok program) :
    program.fetch prior.pc =
      some (.checkRange ranges (.ofNat (distinct ranges)) inverted) := by
  obtain ⟨_, finishes⟩ := Assembly.exists_finished applied finished
  obtain ⟨symbolic, rest, emits, whole⟩ :=
    Assembly.exists_emitted_of_reached reached applied rfl
  obtain ⟨instruction, fetched, resolved⟩ := finishes.exists_fetch whole
  rw [← prior.pc_eq] at fetched
  cases emits with
  | table _ counted =>
    rw [← totalCount_eq_sum, inOrder.totalCount_eq_distinct,
      ← inOrder.toNat_ofNat_distinct] at counted
    obtain rfl := UInt32.toNat_inj.mp counted
    cases resolved
    exact fetched

end UnitRange.InOrder

namespace UnitRange

/-- A table that is in order means the set of the units in its ranges: it can be appended to every
assembly, with the number of these units as its count, it is read back from the finished program,
and it is checked by whether the unit at the position is one of them. A table in any order holds no
other units. -/
theorem table_exact (ranges : List UnitRange) :
    (InOrder ranges → ∃ count, Faithful ranges count) ∧
      ∀ unit, anyHolds ranges unit = true →
        ∃ range ∈ ranges, range.first ≤ unit ∧ unit ≤ range.last := by
  refine ⟨fun inOrder => ⟨.ofNat (distinct ranges), ?_⟩, fun unit => exists_of_anyHolds⟩
  have counted := inOrder.toNat_ofNat_distinct
  constructor
  case counted => exact counted
  case small =>
    rw [counted]
    exact inOrder.distinct_le
  case appended => exact inOrder.apply_emitRanges
  case decoded =>
    intro before after inverted captures counters prior final program reached applied finished
    have fetched := inOrder.fetch_of_finish reached applied finished
    exact ⟨Program.decodeAt_of_fetch fetched, fetched⟩
  case held =>
    intro unit
    rw [anyHolds_iff inOrder.sorted, mem_flatMap_units_iff]
  case consumes =>
    intro α _ program subject limit recorded inverted thread fetched accepted
    rw [Thread.step_of_fetch fetched]
    simp only [Thread.execute, Thread.checkUnit, Effect.consumeIf,
      if_pos ((unitPasses_iff_accepts inOrder.sorted).mpr accepted)]
    rfl
  case fails =>
    intro α _ program subject limit recorded inverted thread fetched refused
    rw [Thread.step_of_fetch fetched]
    simp only [Thread.execute, Thread.checkUnit, Effect.consumeIf,
      if_neg fun passed => refused ((unitPasses_iff_accepts inOrder.sorted).mp passed)]
    rfl

/-- An inverted table behind another instruction, with a range at either end of the units. -/
theorem table_exact_bounds :
    ∃ assembly program count,
      Assembly.empty.applyAll [.emitUnit 97,
        .emitRanges [⟨0, 9⟩, ⟨0x30, 0x39⟩, ⟨0xFFFF, 0xFFFF⟩] true, .emit .success] =
          .ok assembly ∧
      assembly.finish 1 0 = .ok program ∧
      Faithful [⟨0, 9⟩, ⟨0x30, 0x39⟩, ⟨0xFFFF, 0xFFFF⟩] count ∧
      program.fetch 2 =
        some (.checkRange [⟨0, 9⟩, ⟨0x30, 0x39⟩, ⟨0xFFFF, 0xFFFF⟩] count true) ∧
      anyHolds [⟨0, 9⟩, ⟨0x30, 0x39⟩, ⟨0xFFFF, 0xFFFF⟩] 0xFFFF = true := by
  have inOrder : InOrder [⟨0, 9⟩, ⟨0x30, 0x39⟩, ⟨0xFFFF, 0xFFFF⟩] :=
    .of_apart (by decide) (by decide)
  obtain ⟨count, faithful⟩ := (table_exact _).1 inOrder
  have builds : ((Assembly.empty.applyAll [.emitUnit 97,
      .emitRanges [⟨0, 9⟩, ⟨0x30, 0x39⟩, ⟨0xFFFF, 0xFFFF⟩] true,
      .emit .success]).toOption.map fun assembly =>
        decide ((assembly.finish 1 0).toOption.isSome = true)) = some true := by
    decide +kernel
  obtain ⟨assembly, applied, builds⟩ := exists_ok_of_decide builds
  cases finished : assembly.finish 1 0 with
  | error error =>
    rw [finished] at builds
    contradiction
  | ok program =>
    have fetched := (faithful.decoded [.emitUnit 97] _ true 1 0 _ _ _ rfl applied finished).2
    exact ⟨assembly, program, count, applied, finished, faithful, fetched,
      (faithful.held 0xFFFF).mpr ⟨⟨0xFFFF, 0xFFFF⟩, by decide⟩⟩

end UnitRange

end RegexMachine
