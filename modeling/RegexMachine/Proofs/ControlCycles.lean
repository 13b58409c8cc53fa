import Mathlib.Data.Finset.Card
import Mathlib.Data.Finset.Range
import Mathlib.Data.List.Chain
import RegexMachine.Proofs.Inversion

/-!
# Cycles in the control flow

The offsets that control runs through and comes back to. A program is guarded if each of its cycles
consumes a unit or requires that the position has changed since it was stored
(`Program.IsGuarded`). Then control does not come back to an offset without consuming a unit or
storing the position in a further slot (`Program.IsGuarded.idles_acyclic`), and the number of
offsets that it can still pass on to decreases (`extent_lt`).
-/

namespace RegexMachine

/-- The offsets of a cycle: each leads to the next one, the last one leads to the first, and none is
visited twice. -/
structure IsCycle (leads : Nat → Nat → Prop) (offsets : List Nat) : Prop where
  nonempty : offsets ≠ []
  distinct : offsets.Nodup
  closed : List.IsChain leads (offsets ++ offsets.head?.toList)

section

variable {leads other : Nat → Nat → Prop} {offsets : List Nat}

/-- A cycle is one of every relation that leads on at least as much. -/
theorem IsCycle.mono (cycle : IsCycle leads offsets)
    (implies : ∀ offset next, leads offset next → other offset next) : IsCycle other offsets :=
  ⟨cycle.nonempty, cycle.distinct, cycle.closed.imp implies⟩

/-- Every offset of a chain but the last leads on. -/
theorem exists_next_of_isChain {last offset : Nat}
    (chain : List.IsChain leads (offsets ++ [last])) (member : offset ∈ offsets) :
    ∃ next, leads offset next := by
  obtain ⟨before, after, rfl⟩ := List.mem_iff_append.mp member
  have rest : List.IsChain leads (offset :: (after ++ [last])) := by
    rw [List.append_assoc] at chain
    exact chain.right_of_append
  cases after with
  | nil => exact ⟨last, rest.rel⟩
  | cons next after => exact ⟨next, rest.rel⟩

/-- Every offset of a cycle leads on. -/
theorem IsCycle.exists_next (cycle : IsCycle leads offsets) {offset : Nat}
    (member : offset ∈ offsets) : ∃ next, leads offset next := by
  obtain ⟨first, later, rfl⟩ := List.exists_cons_of_ne_nil cycle.nonempty
  exact exists_next_of_isChain cycle.closed member

/-- A cycle contains one of the offsets that are left out if a rank rises from all others on. -/
theorem IsCycle.exists_mem_of_rises (cycle : IsCycle leads offsets) (out : List Nat)
    (rank : Nat → Nat)
    (rises : ∀ offset next, leads offset next → offset ∉ out → rank offset < rank next) :
    ∃ offset ∈ offsets, offset ∈ out := by
  by_contra none
  obtain ⟨first, later, rfl⟩ := List.exists_cons_of_ne_nil cycle.nonempty
  have chain : List.IsChain leads (first :: later ++ [first]) := cycle.closed
  have members : ∀ offset ∈ first :: later ++ [first], offset ∈ first :: later := by
    simp [or_comm]
  have rising : List.IsChain (fun offset next => rank offset < rank next)
      (first :: later ++ [first]) :=
    chain.imp_of_mem_imp fun offset next member _ step =>
      rises offset next step fun isOut => none ⟨offset, members offset member, isOut⟩
  have sorted : ((first :: later ++ [first]).map rank).Pairwise (· < ·) := by
    rw [← List.isChain_iff_pairwise, List.isChain_map]
    exact rising
  rw [List.map_append, List.pairwise_append] at sorted
  exact Nat.lt_irrefl (rank first) (sorted.2.2 _ List.mem_cons_self _ List.mem_cons_self)

/-- A list that visits an element twice contains a part between two visits. -/
theorem exists_between_of_not_nodup {elements : List Nat} (repeats : ¬ elements.Nodup) :
    ∃ before element between after,
      elements = before ++ element :: between ++ element :: after := by
  induction elements with
  | nil => exact absurd List.nodup_nil repeats
  | cons element elements inductionHypothesis =>
    by_cases member : element ∈ elements
    · obtain ⟨between, after, rfl⟩ := List.mem_iff_append.mp member
      exact ⟨[], element, between, after, rfl⟩
    · obtain ⟨before, twice, between, after, rfl⟩ := inductionHypothesis fun nodup =>
        repeats (List.nodup_cons.mpr ⟨member, nodup⟩)
      exact ⟨element :: before, twice, between, after, rfl⟩

/-- A closed walk contains a cycle. -/
theorem exists_isCycle_of_isChain {first : Nat} {later : List Nat}
    (closed : List.IsChain leads (first :: later ++ [first])) :
    ∃ offsets, IsCycle leads offsets := by
  induction length : later.length using Nat.strong_induction_on generalizing first later with
  | _ count inductionHypothesis =>
    by_cases distinct : (first :: later).Nodup
    · exact ⟨first :: later, by simp, distinct, closed⟩
    · -- The part of the walk between two visits of an offset is a shorter closed walk.
      obtain ⟨before, offset, between, after, split⟩ := exists_between_of_not_nodup distinct
      have lengths := congrArg List.length split
      simp only [List.length_append, List.length_cons] at lengths
      rw [split] at closed
      have part : List.IsChain leads (offset :: between ++ [offset]) :=
        closed.infix ⟨before, after ++ [first], by simp⟩
      exact inductionHypothesis between.length (by omega) part rfl

/-- What leads back to itself lies on a closed walk. -/
theorem exists_isChain_of_transGen {first last : Nat}
    (walk : Relation.TransGen leads first last) :
    ∃ later, List.IsChain leads (first :: later ++ [last]) := by
  induction walk with
  | single step => exact ⟨[], by simpa using step⟩
  | @tail middle last _ step inductionHypothesis =>
    obtain ⟨later, chain⟩ := inductionHypothesis
    refine ⟨later ++ [middle], ?_⟩
    have longer : List.IsChain leads ((first :: later ++ [middle]) ++ [last]) := by
      refine chain.append (List.isChain_singleton _) ?_
      rw [List.getLast?_concat]
      simpa using step
    simpa using longer

/-- What leads back to itself contains a cycle. -/
theorem exists_isCycle_of_transGen {offset : Nat}
    (walk : Relation.TransGen leads offset offset) : ∃ offsets, IsCycle leads offsets := by
  obtain ⟨later, closed⟩ := exists_isChain_of_transGen walk
  exact exists_isCycle_of_isChain closed

open Classical in
/-- The number of offsets below a bound that an offset leads to in one or more steps. -/
noncomputable def extent (leads : Nat → Nat → Prop) (bound offset : Nat) : Nat :=
  ((Finset.range bound).filter fun later => Relation.TransGen leads offset later).card

/-- There are no more offsets to be led to than the bound admits. -/
theorem extent_le (leads : Nat → Nat → Prop) (bound offset : Nat) :
    extent leads bound offset ≤ bound := by
  classical
  exact Nat.le_trans (Finset.card_filter_le _ _) (Nat.le_of_eq (Finset.card_range bound))

/-- Without cycles every step leaves fewer offsets to be led to. -/
theorem extent_lt {bound offset next : Nat} (step : leads offset next) (within : next < bound)
    (acyclic : ¬ Relation.TransGen leads next next) :
    extent leads bound next < extent leads bound offset := by
  refine Finset.card_lt_card (Finset.ssubset_iff_of_subset ?_ |>.mpr ⟨next, ?_, ?_⟩)
  · intro later member
    simp only [Finset.mem_filter] at member ⊢
    exact ⟨member.1, .head step member.2⟩
  · simp only [Finset.mem_filter, Finset.mem_range]
    exact ⟨within, .single step⟩
  · simp only [Finset.mem_filter, not_and]
    exact fun _ => acyclic

end

namespace Instruction

variable {Target : Type}

/-- Whether an instruction consumes a unit where it goes on. -/
def consumes : Instruction Target → Bool
  | .checkByte _ | .checkUnit _ | .checkAny _ | .checkRange .. | .checkLiteral _ => true
  | _ => false

end Instruction

namespace Program

variable {program : Program} {pc next : Nat} {instruction : Instruction UInt32}

/-- Whether control can pass from an offset to another one. -/
def Flows (program : Program) (pc next : Nat) : Prop :=
  ∃ instruction, program.fetch pc = some instruction ∧ instruction.Leads pc next

/-- Whether a scratch slot is written by nothing but stores of the position. -/
def HoldsPositions (program : Program) (slot : UInt32) : Prop :=
  ∀ pc instruction, program.fetch pc = some instruction → instruction.writtenSlot? = some slot →
    instruction = .storePosition slot

/-- Whether every cycle of the control flow consumes a unit, or both stores the position in a slot
for positions and requires that it is not the one in the slot. -/
def IsGuarded (program : Program) : Prop :=
  ∀ offsets, IsCycle program.Flows offsets →
    (∃ pc ∈ offsets, ∃ instruction, program.fetch pc = some instruction ∧
      instruction.consumes = true) ∨
    ∃ slot, program.HoldsPositions slot ∧
      (∃ pc ∈ offsets, program.fetch pc = some (.storePosition slot)) ∧
      ∃ pc ∈ offsets, program.fetch pc = some (.positionTest slot)

/-- The slots that hold positions, as seen from the entries of the program. -/
theorem holdsPositions_iff {slot : UInt32} : program.HoldsPositions slot ↔
    ∀ entry ∈ program.entries, entry.instruction.writtenSlot? = some slot →
      entry.instruction = .storePosition slot :=
  ⟨fun holds ⟨pc, instruction⟩ member => holds pc instruction (fetch_eq_some_iff.mpr member),
    fun checked pc instruction fetched => checked ⟨pc, instruction⟩ (fetch_eq_some_iff.mp fetched)⟩

instance (slot : UInt32) : Decidable (program.HoldsPositions slot) :=
  decidable_of_iff _ holdsPositions_iff.symm

/-- A rank rises along the control flow if it does from every entry to its successors. -/
theorem rises_of_entries {out : List Nat} {rank : Nat → Nat}
    (checked : ∀ entry ∈ program.entries, entry.pc ∉ out →
      ∀ next ∈ entry.instruction.successors entry.pc, rank entry.pc < rank next) :
    ∀ pc next, program.Flows pc next → pc ∉ out → rank pc < rank next := by
  rintro pc next ⟨instruction, fetched, leads⟩ inside
  exact checked ⟨pc, instruction⟩ (fetch_eq_some_iff.mp fetched) inside next
    (Instruction.mem_successors_iff.mpr leads)

/-- The slots for positions that the program writes. -/
def guards (program : Program) : Finset UInt32 :=
  (program.entries.filterMap fun entry => entry.instruction.writtenSlot?).toFinset.filter
    program.HoldsPositions

/-- The guards of a program are the slots that it writes for nothing but positions. -/
theorem mem_guards_iff {slot : UInt32} : slot ∈ program.guards ↔
    (∃ pc, program.fetch pc = some (.storePosition slot)) ∧ program.HoldsPositions slot := by
  simp only [guards, Finset.mem_filter, List.mem_toFinset, List.mem_filterMap]
  refine and_congr_left fun holds => ?_
  constructor
  · rintro ⟨⟨pc, instruction⟩, member, writes⟩
    have fetched := fetch_eq_some_iff.mpr member
    obtain rfl := holds pc instruction fetched writes
    exact ⟨pc, fetched⟩
  · rintro ⟨pc, fetched⟩
    exact ⟨_, fetch_eq_some_iff.mp fetched, rfl⟩

/-- Guards are scratch slots of the program. -/
theorem lt_counters_of_mem_guards {slot : UInt32} (member : slot ∈ program.guards) :
    slot.toNat < program.counters := by
  obtain ⟨⟨pc, fetched⟩, _⟩ := mem_guards_iff.mp member
  exact slot_lt_counters fetched rfl

/-- Whether control can pass from an offset to another one where neither the position changes nor
the guards that hold it. -/
def Idles (program : Program) (held : Finset UInt32) (pc next : Nat) : Prop :=
  ∃ instruction, program.fetch pc = some instruction ∧ instruction.Leads pc next ∧
    instruction.consumes = false ∧
    ∀ slot ∈ program.guards, (instruction = .storePosition slot → slot ∈ held) ∧
      (instruction = .positionTest slot → slot ∉ held)

/-- Control passes on to offsets of the program. -/
theorem lt_length_of_leads (fetched : program.fetch pc = some instruction)
    (leads : instruction.Leads pc next) : next < program.bytes.length := by
  cases leads with
  | next continues =>
    obtain ⟨_, found⟩ := exists_fetch_next fetched continues
    exact lt_length_of_fetch found
  | target jumps =>
    obtain ⟨_, found⟩ := exists_fetch_target fetched jumps
    exact lt_length_of_fetch found

/-- In a guarded program control does not come back to an offset where neither the position changes
nor the guards that hold it. -/
theorem IsGuarded.idles_acyclic (guarded : program.IsGuarded) (held : Finset UInt32) (pc : Nat) :
    ¬ Relation.TransGen (program.Idles held) pc pc := by
  intro walk
  obtain ⟨offsets, cycle⟩ := exists_isCycle_of_transGen walk
  have flows : IsCycle program.Flows offsets :=
    cycle.mono fun _ _ ⟨instruction, fetched, leads, _⟩ => ⟨instruction, fetched, leads⟩
  have idles : ∀ {pc instruction}, pc ∈ offsets → program.fetch pc = some instruction →
      instruction.consumes = false ∧ ∀ slot ∈ program.guards,
        (instruction = .storePosition slot → slot ∈ held) ∧
        (instruction = .positionTest slot → slot ∉ held) := by
    intro pc instruction member fetched
    obtain ⟨_, other, found, _, idle⟩ := cycle.exists_next member
    obtain rfl := Option.some.inj (fetched.symm.trans found)
    exact idle
  rcases guarded offsets flows with ⟨pc, member, instruction, fetched, consumes⟩ |
    ⟨slot, holds, ⟨stores, storesMember, stored⟩, tests, testsMember, tested⟩
  · rw [(idles member fetched).1] at consumes
    contradiction
  · have guard : slot ∈ program.guards := mem_guards_iff.mpr ⟨⟨stores, stored⟩, holds⟩
    exact ((idles testsMember tested).2 slot guard).2 rfl
      (((idles storesMember stored).2 slot guard).1 rfl)

end Program

end RegexMachine
