import RegexMachine.Program.LeadingUnits
import RegexMachine.Thread

/-!
# What filters accept

A filter never turns away a unit that it was made for: the units of a list, the units of a
range table in whatever order its ranges stand, the case forms of a literal. For ranges this is
an argument on bits. The units between two bounds share all bits above the highest one in which
the bounds differ (`Filter.testBit_of_between`), and the mask of a range has every bit below.
-/

namespace RegexMachine

namespace Filter

variable {unit : UInt16}

/-- A number between two others has their bits from a position on where those are the same. -/
theorem testBit_of_between {first middle last position index : Nat}
    (same : ∀ above, position ≤ above → first.testBit above = last.testBit above)
    (atLeast : first ≤ middle) (atMost : middle ≤ last) (above : position ≤ index) :
    middle.testBit index = first.testBit index := by
  have quotients : first / 2 ^ position = last / 2 ^ position := by
    apply Nat.eq_of_testBit_eq
    intro place
    rw [Nat.testBit_div_two_pow, Nat.testBit_div_two_pow]
    exact same _ (Nat.le_add_left _ _)
  have between : middle / 2 ^ position = first / 2 ^ position := by
    apply Nat.le_antisymm
    · rw [quotients]
      exact Nat.div_le_div_right atMost
    · exact Nat.div_le_div_right atLeast
  obtain ⟨place, rfl⟩ := Nat.exists_eq_add_of_le' above
  rw [← Nat.testBit_div_two_pow, between, Nat.testBit_div_two_pow]

/-- The bits up to the highest bit of a unit are set, and no others. -/
theorem testBit_bitsUpTo (unit : UInt16) (index : Nat) :
    (bitsUpTo unit).toNat.testBit index = decide (index < unit.toNat.log2 + 1) := by
  have small : unit.toNat.log2 + 1 ≤ 16 := by
    by_cases zero : unit.toNat = 0
    · rw [zero, Nat.log2_zero]
      decide
    · exact (Nat.log2_lt zero).mpr unit.toNat_lt
  have fits : 2 ^ (unit.toNat.log2 + 1) - 1 < UInt16.size := by
    have bound : 2 ^ (unit.toNat.log2 + 1) ≤ 2 ^ 16 := Nat.pow_le_pow_right Nat.two_pos small
    have positive := Nat.two_pow_pos (unit.toNat.log2 + 1)
    simp only [UInt16.size]
    omega
  rw [bitsUpTo, Nat.one_shiftLeft, UInt16.toNat_ofNat_of_lt' fits,
    Nat.testBit_two_pow_sub_one]

/-- A mask accepts the units whose bits it has. -/
theorem accepts_mask_iff {bits : UInt16} : (mask bits).accepts unit = true ↔
    ∀ index, unit.toNat.testBit index = true → bits.toNat.testBit index = true := by
  rw [accepts, beq_iff_eq, ← UInt16.toNat_inj, UInt16.toNat_and]
  constructor
  · intro same index set
    rw [← same, Nat.testBit_and, Bool.and_eq_true] at set
    exact set.1
  · intro covered
    apply Nat.eq_of_testBit_eq
    intro index
    rw [Nat.testBit_and]
    cases set : unit.toNat.testBit index with
    | false => rw [Bool.and_false]
    | true => rw [covered index set, Bool.and_self]

/-- A mask with more bits accepts more. -/
theorem accepts_mask_or {bits others : UInt16}
    (accepted : (mask bits).accepts unit = true ∨ (mask others).accepts unit = true) :
    (mask (bits ||| others)).accepts unit = true := by
  rw [accepts_mask_iff]
  intro index set
  rw [UInt16.toNat_or, Nat.testBit_or, Bool.or_eq_true]
  exact accepted.imp (accepts_mask_iff.mp · index set) (accepts_mask_iff.mp · index set)

/-- The mask of the bits of a filter accepts what the filter accepts. -/
theorem accepts_mask_bits {filter : Filter} (accepted : filter.accepts unit = true) :
    (mask filter.bits).accepts unit = true := by
  cases filter with
  | one only =>
    rw [accepts, beq_iff_eq] at accepted
    subst accepted
    exact accepts_mask_iff.mpr fun _ set => set
  | mask bits => exact accepted

/-- The mask of a range accepts every unit of the range. -/
theorem accepts_rangeMask {first last : UInt16} (atLeast : first ≤ unit) (atMost : unit ≤ last) :
    (mask (rangeMask first last)).accepts unit = true := by
  rw [UInt16.le_iff_toNat_le] at atLeast atMost
  rw [accepts_mask_iff, rangeMask]
  intro index set
  by_cases single : first = last
  · subst single
    have only : unit = first := UInt16.toNat_inj.mp (Nat.le_antisymm atMost atLeast)
    rw [if_pos (beq_iff_eq.mpr rfl), ← only]
    exact set
  · rw [if_neg (by simpa using single)]
    simp only [UInt16.toNat_or, Nat.testBit_or, testBit_bitsUpTo, Bool.or_eq_true,
      decide_eq_true_iff]
    by_cases below : index < (first ^^^ last).toNat.log2 + 1
    · exact .inr below
    · have same : ∀ above, (first ^^^ last).toNat.log2 + 1 ≤ above →
          first.toNat.testBit above = last.toNat.testBit above := by
        intro above high
        have clear : (first ^^^ last).toNat.testBit above = false :=
          Nat.testBit_lt_two_pow
            (Nat.lt_of_lt_of_le Nat.lt_log2_self (Nat.pow_le_pow_right Nat.two_pos high))
        rw [UInt16.toNat_xor, Nat.testBit_xor] at clear
        simpa using clear
      rw [testBit_of_between same atLeast atMost (Nat.le_of_not_lt below)] at set
      exact .inl (.inl set)

/-- A filter widened by a range accepts what it accepted before and the units of the range. -/
theorem accepts_withRange {filter : Filter} {first last : UInt16}
    (accepted : filter.accepts unit = true ∨ first ≤ unit ∧ unit ≤ last) :
    (filter.withRange first last).accepts unit = true :=
  accepts_mask_or (accepted.imp accepts_mask_bits fun inside =>
    accepts_rangeMask inside.1 inside.2)

/-- A filter widened by many ranges accepts what it accepted before and the units of each. -/
theorem accepts_foldl_withRange {ranges : List UnitRange} {filter : Filter}
    (accepted : filter.accepts unit = true ∨
      ∃ range ∈ ranges, range.first ≤ unit ∧ unit ≤ range.last) :
    (ranges.foldl (fun filter range => filter.withRange range.first range.last) filter).accepts
      unit = true := by
  induction ranges generalizing filter with
  | nil =>
    rcases accepted with accepted | ⟨range, member, _⟩
    · exact accepted
    · contradiction
  | cons head later inductionHypothesis =>
    rw [List.foldl_cons]
    apply inductionHypothesis
    rcases accepted with accepted | ⟨range, member, inside⟩
    · exact .inl (accepts_withRange (.inl accepted))
    · rcases List.mem_cons.mp member with rfl | member
      · exact .inl (accepts_withRange (.inr inside))
      · exact .inr ⟨range, member, inside⟩

/-- The filter of a range table accepts the units of all its ranges. -/
theorem accepts_of_ofRanges? {ranges : List UnitRange} {filter : Filter}
    (derived : ofRanges? ranges = some filter) {range : UnitRange} (member : range ∈ ranges)
    (inside : range.first ≤ unit ∧ unit ≤ range.last) : filter.accepts unit = true := by
  cases ranges with
  | nil => contradiction
  | cons head later =>
    obtain rfl := Option.some.inj derived
    apply accepts_foldl_withRange
    rcases List.mem_cons.mp member with rfl | member
    · left
      split
      · rename_i single
        rw [beq_iff_eq] at single
        rw [← single] at inside
        rw [accepts, beq_iff_eq]
        exact UInt16.le_antisymm inside.2 inside.1
      · exact accepts_rangeMask inside.1 inside.2
    · exact .inr ⟨range, member, inside⟩

/-- The bits of a mask made of many units are those of the units, and those it began with. -/
theorem testBit_foldl_or {units : List UInt16} {bits : UInt16} {index : Nat} :
    (units.foldl (· ||| ·) bits).toNat.testBit index = true ↔
      bits.toNat.testBit index = true ∨ ∃ unit ∈ units, unit.toNat.testBit index = true := by
  induction units generalizing bits with
  | nil => simp
  | cons head later inductionHypothesis =>
    rw [List.foldl_cons, inductionHypothesis, UInt16.toNat_or, Nat.testBit_or, Bool.or_eq_true,
      or_assoc]
    simp only [List.mem_cons, exists_eq_or_imp]

/-- A mask made of many units accepts each of them, and what it accepted before. -/
theorem accepts_foldl_or {units : List UInt16} {bits : UInt16}
    (accepted : (mask bits).accepts unit = true ∨ unit ∈ units) :
    (mask (units.foldl (· ||| ·) bits)).accepts unit = true := by
  rw [accepts_mask_iff]
  intro index set
  rw [testBit_foldl_or]
  exact accepted.imp (accepts_mask_iff.mp · index set) fun member => ⟨unit, member, set⟩

/-- The filter of a list of units accepts each of them. -/
theorem accepts_of_ofUnits? {units : List UInt16} {filter : Filter}
    (derived : ofUnits? units = some filter) (member : unit ∈ units) :
    filter.accepts unit = true := by
  cases units with
  | nil => contradiction
  | cons head later =>
    rw [ofUnits?] at derived
    split at derived
    · rename_i single
      obtain rfl := Option.some.inj derived
      rw [List.all_eq_true] at single
      rcases List.mem_cons.mp member with rfl | member
      · exact beq_self_eq_true _
      · exact single unit member
    · obtain rfl := Option.some.inj derived
      apply accepts_foldl_or
      rcases List.mem_cons.mp member with rfl | member
      · exact .inl (accepts_mask_iff.mpr fun _ set => set)
      · exact .inr member

end Filter

namespace UnitRange

/-- The units from the first of a range to its last, in order. -/
def units (range : UnitRange) : List UInt16 :=
  (List.range' range.first.toNat (range.last.toNat + 1 - range.first.toNat)).map UInt16.ofNat

/-- The units of a range lie between its bounds. -/
theorem mem_units_iff {range : UnitRange} {unit : UInt16} :
    unit ∈ range.units ↔ range.first ≤ unit ∧ unit ≤ range.last := by
  rw [units, List.mem_map, UInt16.le_iff_toNat_le, UInt16.le_iff_toNat_le]
  constructor
  · rintro ⟨number, member, rfl⟩
    rw [List.mem_range'_1] at member
    have small : number < UInt16.size := by
      have bound := range.last.toNat_lt
      simp only [UInt16.size]
      omega
    rw [UInt16.toNat_ofNat_of_lt' small]
    omega
  · intro inside
    refine ⟨unit.toNat, ?_, UInt16.ofNat_toNat⟩
    rw [List.mem_range'_1]
    omega

/-- A unit that a range table holds lies in one of its ranges. -/
theorem exists_of_anyHolds {ranges : List UnitRange} {unit : UInt16}
    (holds : anyHolds ranges unit = true) :
    ∃ range ∈ ranges, range.first ≤ unit ∧ unit ≤ range.last := by
  induction ranges with
  | nil => contradiction
  | cons head later inductionHypothesis =>
    rw [anyHolds] at holds
    split at holds
    · contradiction
    · rename_i notBelow
      split at holds
      · rename_i notAbove
        exact ⟨head, List.mem_cons_self, UInt16.not_lt.mp notBelow, notAbove⟩
      · obtain ⟨range, member, inside⟩ := inductionHypothesis holds
        exact ⟨range, List.mem_cons_of_mem _ member, inside⟩

end UnitRange

end RegexMachine
