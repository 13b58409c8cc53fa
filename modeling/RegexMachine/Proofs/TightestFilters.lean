import Mathlib.Data.List.Perm.Basic
import RegexMachine.Proofs.FilterCover

/-!
# How tight filters are

The filter of a list of units is the tightest one that accepts the list, and a filter widened by a
range is the tightest mask that accepts what it accepted before and the range. Both come down to
which bits a mask has: a bit of the folded mask is a bit of one of the units
(`Filter.testBit_foldl_or`), and a bit of the mask of a range is a bit of a unit of the range
(`Filter.testBit_rangeMask_iff`). The latter is not obvious below the highest bit in which the
bounds differ. There the unit is the one just below the first multiple of the power of this bit that
the range contains (`Filter.exists_testBit_between`).
-/

namespace RegexMachine

namespace Filter

variable {unit : UInt16}

/-- A filter of some kind that accepts wanted units and is the tightest to do so. -/
structure Tightest (kind : Filter → Prop) (wanted : UInt16 → Prop) (filter : Filter) : Prop where
  /-- No unit that is wanted is turned away. -/
  complete : ∀ unit, wanted unit → filter.accepts unit = true
  /-- Every filter of the kind that accepts the wanted units accepts at least as much. -/
  tight : ∀ other, kind other → (∀ unit, wanted unit → other.accepts unit = true) →
    ∀ unit, filter.accepts unit = true → other.accepts unit = true

/-- A filter that is a mask. -/
def IsMask (filter : Filter) : Prop :=
  ∃ bits, filter = mask bits

/-- Among masks, the tightest is one whose every bit occurs in a unit that is wanted. -/
theorem Tightest.of_mask {kind : Filter → Prop} {wanted : UInt16 → Prop} {bits : UInt16}
    (complete : ∀ unit, wanted unit → (mask bits).accepts unit = true)
    (occurs : ∀ index, bits.toNat.testBit index = true →
      ∃ unit, wanted unit ∧ unit.toNat.testBit index = true)
    (masks : ∀ other, kind other → (∀ unit, wanted unit → other.accepts unit = true) →
      other.IsMask) :
    Tightest kind wanted (mask bits) where
  complete := complete
  tight := by
    intro other isKind covers unit accepted
    obtain ⟨others, rfl⟩ := masks other isKind covers
    rw [accepts_mask_iff] at accepted ⊢
    intro index set
    obtain ⟨source, isWanted, has⟩ := occurs index (accepted index set)
    exact accepts_mask_iff.mp (covers source isWanted) index has

/-- The filter of a list of units is the tightest of all filters that accept them. -/
theorem exists_tightest_ofUnits? {units : List UInt16} (nonempty : units ≠ []) :
    ∃ filter, ofUnits? units = some filter ∧
      Tightest (fun _ => True) (fun unit => unit ∈ units) filter := by
  obtain ⟨first, others, rfl⟩ := List.exists_cons_of_ne_nil nonempty
  by_cases single : others.all (· == first) = true
  · have derived : ofUnits? (first :: others) = some (one first) := if_pos single
    refine ⟨one first, derived, fun unit => accepts_of_ofUnits? derived, ?_⟩
    intro other _ covers unit accepted
    rw [accepts, beq_iff_eq] at accepted
    rw [accepted]
    exact covers first List.mem_cons_self
  · have derived : ofUnits? (first :: others) = some (mask (others.foldl (· ||| ·) first)) :=
      if_neg single
    refine ⟨_, derived, .of_mask (fun unit => accepts_of_ofUnits? derived) ?_ ?_⟩
    · intro index set
      rcases testBit_foldl_or.mp set with set | ⟨unit, member, set⟩
      · exact ⟨first, List.mem_cons_self, set⟩
      · exact ⟨unit, List.mem_cons_of_mem _ member, set⟩
    · -- A single unit would be the first of the list, and then all of them.
      intro other _ covers
      cases other with
      | mask bits => exact ⟨bits, rfl⟩
      | one only =>
        simp only [accepts, beq_iff_eq] at covers
        obtain rfl := covers first List.mem_cons_self
        refine absurd (List.all_eq_true.mpr fun unit member => ?_) single
        exact beq_iff_eq.mpr (covers unit (List.mem_cons_of_mem _ member))

/-- Numbers that differ in a bit have a number between them with any bit from there downwards. -/
theorem exists_testBit_between {first last position index : Nat} (ordered : first ≤ last)
    (differ : first.testBit position ≠ last.testBit position) (below : index ≤ position) :
    ∃ middle, first ≤ middle ∧ middle ≤ last ∧ middle.testBit index = true := by
  rcases Nat.lt_or_eq_of_le below with below | rfl
  · have apart : first / 2 ^ position ≠ last / 2 ^ position := by
      intro same
      have bits := congrArg (Nat.testBit · 0) same
      simp only [Nat.testBit_div_two_pow, Nat.zero_add] at bits
      exact differ bits
    have quotients : first / 2 ^ position < last / 2 ^ position :=
      Nat.lt_of_le_of_ne (Nat.div_le_div_right ordered) apart
    -- The number just below the greatest multiple of the power has all the lower bits.
    obtain ⟨quotient, found⟩ := Nat.exists_eq_add_one_of_ne_zero (Nat.ne_zero_of_lt quotients)
    have lower := Nat.two_pow_pos position
    have start : first < 2 ^ position * (quotient + 1) := by
      rw [← found, Nat.mul_comm]
      exact (Nat.div_lt_iff_lt_mul lower).mp quotients
    have stop : 2 ^ position * (quotient + 1) ≤ last := by
      rw [← found]
      exact Nat.mul_div_le last (2 ^ position)
    refine ⟨2 ^ position * quotient + (2 ^ position - 1), ?_, ?_, ?_⟩
    · rw [Nat.mul_succ] at start
      omega
    · rw [Nat.mul_succ] at stop
      omega
    · rw [Nat.testBit_two_pow_mul_add _ (by omega), if_pos below, Nat.testBit_two_pow_sub_one]
      exact decide_eq_true below
  · cases set : last.testBit index with
    | true => exact ⟨last, ordered, Nat.le_refl _, set⟩
    | false =>
      rw [set] at differ
      exact ⟨first, Nat.le_refl _, ordered, by simpa using differ⟩

/-- Different units differ in the highest bit that is not the same in both. -/
theorem testBit_log2_xor {first last : UInt16} (apart : first ≠ last) :
    first.toNat.testBit (first ^^^ last).toNat.log2 ≠
      last.toNat.testBit (first ^^^ last).toNat.log2 := by
  have nonzero : (first ^^^ last).toNat ≠ 0 := by
    intro zero
    exact apart (UInt16.xor_eq_zero_iff.mp (UInt16.toNat_inj.mp zero))
  have highest := Nat.testBit_log2 nonzero
  rw [UInt16.toNat_xor, Nat.testBit_xor, bne_iff_ne] at highest
  rw [UInt16.toNat_xor]
  exact highest

/-- The bits of the mask of a range are those of the units of the range. -/
theorem testBit_rangeMask_iff {first last : UInt16} (ordered : first ≤ last) {index : Nat} :
    (rangeMask first last).toNat.testBit index = true ↔
      ∃ unit, (first ≤ unit ∧ unit ≤ last) ∧ unit.toNat.testBit index = true := by
  constructor
  · intro set
    by_cases single : first = last
    · rw [rangeMask, if_pos (by simpa using single)] at set
      exact ⟨first, ⟨UInt16.le_refl _, ordered⟩, set⟩
    · rw [rangeMask, if_neg (by simpa using single)] at set
      simp only [UInt16.toNat_or, Nat.testBit_or, testBit_bitsUpTo, Bool.or_eq_true,
        decide_eq_true_iff] at set
      rcases set with (set | set) | below
      · exact ⟨first, ⟨UInt16.le_refl _, ordered⟩, set⟩
      · exact ⟨last, ⟨ordered, UInt16.le_refl _⟩, set⟩
      · have differ := testBit_log2_xor single
        obtain ⟨middle, atLeast, atMost, set⟩ := exists_testBit_between
          (UInt16.le_iff_toNat_le.mp ordered) differ (Nat.le_of_lt_succ below)
        have small := Nat.lt_of_le_of_lt atMost last.toNat_lt
        refine ⟨.ofNat middle, ?_, ?_⟩
        · rw [UInt16.le_iff_toNat_le, UInt16.le_iff_toNat_le, UInt16.toNat_ofNat_of_lt' small]
          exact ⟨atLeast, atMost⟩
        · rw [UInt16.toNat_ofNat_of_lt' small]
          exact set
  · rintro ⟨unit, ⟨atLeast, atMost⟩, set⟩
    exact accepts_mask_iff.mp (accepts_rangeMask atLeast atMost) index set

/-- The mask of a range is made of all the units of the range. -/
theorem rangeMask_eq_foldl {first last : UInt16} (ordered : first ≤ last) :
    rangeMask first last = (UnitRange.mk first last).units.foldl (· ||| ·) 0 := by
  rw [← UInt16.toNat_inj]
  apply Nat.eq_of_testBit_eq
  intro index
  rw [Bool.eq_iff_iff, testBit_rangeMask_iff ordered, testBit_foldl_or]
  simp [UnitRange.mem_units_iff]

/-- A filter accepts the unit that has all its bits. -/
theorem accepts_bits (filter : Filter) : filter.accepts filter.bits = true := by
  cases filter <;> simp [accepts, bits]

/-- A filter widened by a range is the tightest mask that accepts the range and what the filter
accepted. -/
theorem tightest_withRange (filter : Filter) {first last : UInt16} (ordered : first ≤ last) :
    Tightest IsMask (fun unit => filter.accepts unit = true ∨ first ≤ unit ∧ unit ≤ last)
      (filter.withRange first last) := by
  refine .of_mask (fun unit => accepts_withRange) ?_ fun other isMask _ => isMask
  intro index set
  rw [UInt16.toNat_or, Nat.testBit_or, Bool.or_eq_true] at set
  rcases set with set | set
  · exact ⟨filter.bits, .inl filter.accepts_bits, set⟩
  · obtain ⟨unit, inside, set⟩ := (testBit_rangeMask_iff ordered).mp set
    exact ⟨unit, .inr inside, set⟩

/-- Two ranges can be added to a filter in either order. -/
theorem withRange_right_comm (filter : Filter) (range other : UnitRange) :
    (filter.withRange range.first range.last).withRange other.first other.last =
      (filter.withRange other.first other.last).withRange range.first range.last := by
  simp only [withRange, bits, mask.injEq]
  rw [UInt16.or_assoc, UInt16.or_assoc, UInt16.or_comm (rangeMask range.first range.last)]

/-- Filters are as tight as they can be. The filter of a list of units is the tightest of all that
accept the list. The mask of a range is made of the units of the range and of nothing else. A filter
widened by a range is the tightest mask that accepts the range and what the filter accepted, and
many ranges widen a filter to the same mask in whatever order they are added. -/
theorem filters_tightest :
    (∀ units, units ≠ [] → ∃ filter, ofUnits? units = some filter ∧
      Tightest (fun _ => True) (fun unit => unit ∈ units) filter) ∧
    (∀ first last, first ≤ last →
      rangeMask first last = (UnitRange.mk first last).units.foldl (· ||| ·) 0) ∧
    (∀ (filter : Filter) first last, first ≤ last →
      Tightest IsMask (fun unit => filter.accepts unit = true ∨ first ≤ unit ∧ unit ≤ last)
        (filter.withRange first last)) ∧
    ∀ (filter : Filter) (ranges others : List UnitRange), ranges.Perm others →
      ranges.foldl (fun filter range => filter.withRange range.first range.last) filter =
        others.foldl (fun filter range => filter.withRange range.first range.last) filter := by
  refine ⟨fun units => exists_tightest_ofUnits?, fun first last => rangeMask_eq_foldl,
    fun filter first last => filter.tightest_withRange, ?_⟩
  intro filter ranges others same
  have commutes : RightCommutative
      fun (filter : Filter) (range : UnitRange) => filter.withRange range.first range.last :=
    ⟨withRange_right_comm⟩
  exact same.foldl_eq filter

/-- A letter in both its cases, the digits, and the digits added to the low line and to the first
letters in either order. -/
theorem filters_tightest_digits :
    ofUnits? [0x41, 0x61] = some (mask 0x61) ∧
    Tightest (fun _ => True) (fun unit => unit ∈ [0x41, 0x61]) (mask 0x61) ∧
    (UnitRange.mk 0x30 0x39).units.foldl (· ||| ·) 0 = 0x3F ∧
    Tightest IsMask (fun unit => (one 0x5F).accepts unit = true ∨ 0x30 ≤ unit ∧ unit ≤ 0x39)
      (mask 0x7F) ∧
    ((one 0x5F).withRange 0x61 0x66).withRange 0x30 0x39 =
      ((one 0x5F).withRange 0x30 0x39).withRange 0x61 0x66 := by
  obtain ⟨ofUnits, ofRange, widened, reordered⟩ := filters_tightest
  obtain ⟨filter, derived, tightest⟩ := ofUnits [0x41, 0x61] (by simp)
  obtain rfl := Option.some.inj (derived.symm.trans (by decide : _ = some (mask 0x61)))
  exact ⟨derived, tightest, (ofRange 0x30 0x39 (by decide)).symm.trans (by decide),
    widened (one 0x5F) 0x30 0x39 (by decide),
    reordered (one 0x5F) [⟨0x61, 0x66⟩, ⟨0x30, 0x39⟩] _ (List.Perm.swap _ _ _)⟩

end Filter

end RegexMachine
