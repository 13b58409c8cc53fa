import RegexMachine.Proofs.Finishing

/-!
# Literals in pieces

A literal can be appended piece by piece: as shorter literals and, where literals match exactly, as
checks of single units (`Splits`). The instructions behind it move, and with them the labels. The
two assemblies stay in step part by part (`Assembly.InStep`), and if the one with whole literals can
be finished, so can the one with pieces (`Assembly.InStep.finishable`).
-/

namespace RegexMachine

open Instruction

/-- A unit below 256 is kept in a byte. -/
theorem toUInt16_toUInt8 {unit : UInt16} (narrow : unit < 256) : unit.toUInt8.toUInt16 = unit := by
  have small : unit.toNat < 256 := UInt16.lt_iff_toNat_lt.mp narrow
  apply UInt16.toNat_inj.mp
  rw [UInt8.toNat_toUInt16, UInt16.toNat_toUInt8]
  exact Nat.mod_eq_of_lt small

/-- A piece of a literal: some of its units, checked together, or one of them, checked alone. -/
inductive Piece where
  | literal (units : List UInt16)
  | single (unit : UInt16)

namespace Piece

/-- The units of a piece. -/
def units : Piece → List UInt16
  | .literal units => units
  | .single unit => [unit]

/-- The check of a piece. -/
def check {Target : Type} : Piece → Instruction Target
  | .literal units => .checkLiteral units
  | .single unit => .ofUnit unit

/-- The directive that appends the check of a piece. -/
def directive : Piece → Directive
  | .literal units => .emit (.checkLiteral units)
  | .single unit => .emitUnit unit

/-- Whether a literal may have this piece. No piece is empty, and a unit is checked alone only if
literals match exactly. -/
def Proper (exact : Prop) : Piece → Prop
  | .literal units => units ≠ []
  | .single _ => exact

variable {Target : Type} {exact : Prop} {piece : Piece}

/-- The check of a piece has no target. -/
theorem target?_check : (piece.check : Instruction Target).target? = none := by
  cases piece with
  | literal units => rfl
  | single unit =>
    rw [check, ofUnit]
    split <;> rfl

/-- The check of a piece has nothing to be out of range. -/
theorem operandDefect?_check (captures counters : Nat) :
    (piece.check : Instruction Target).operandDefect? captures counters = none := by
  cases piece with
  | literal units => rfl
  | single unit =>
    rw [check, ofUnit]
    split <;> rfl

/-- The check of a piece can be appended if it is not too long. -/
theorem misuse?_check (proper : piece.Proper exact) (short : piece.units.length < wordLimit) :
    (piece.check : Instruction Target).misuse? = none := by
  cases piece with
  | literal units =>
    have notEmpty : units.isEmpty = false := by simpa [Proper] using proper
    have fits : units.length < wordLimit := short
    simp [check, misuse?, notEmpty, fits]
  | single unit =>
    rw [check, ofUnit]
    split <;> rfl

/-- The check of a piece consumes. -/
theorem isPassedOver_check : (piece.check : Instruction Target).isPassedOver = false := by
  cases piece with
  | literal units => rfl
  | single unit =>
    rw [check, ofUnit]
    split <;> rfl

/-- The check of a piece admits the filter of a literal that begins with the piece. -/
theorem unitFilter?_check {ignoreCase : Bool} (proper : piece.Proper exact)
    (caseless : exact → ignoreCase = false) (behind : List UInt16) :
    (piece.check : Instruction Target).unitFilter? ignoreCase =
      (.checkLiteral (piece.units ++ behind) : Instruction Target).unitFilter? ignoreCase := by
  cases piece with
  | literal units =>
    obtain ⟨unit, later, rfl⟩ := List.exists_cons_of_ne_nil proper
    rfl
  | single unit =>
    obtain rfl := caseless proper
    rw [check, ofUnit]
    split
    · rename_i narrow
      simp only [unitFilter?, units, List.singleton_append, toUInt16_toUInt8 narrow]
      rfl
    · rfl

/-- The check of a piece is resolved by itself. -/
theorem eq_check_of_resolved {Other : Type} {meant : Target → Other → Prop}
    {instruction : Instruction Other}
    (resolved : Resolved meant piece.check instruction) : instruction = piece.check := by
  cases piece with
  | literal units =>
    cases resolved
    rfl
  | single unit =>
    simp only [check, ofUnit] at resolved ⊢
    by_cases narrow : unit < 256
    · rw [if_pos narrow] at resolved ⊢
      cases resolved
      rfl
    · rw [if_neg narrow] at resolved ⊢
      cases resolved
      rfl

end Piece

/-- Directives in which some literals are replaced by the checks of their pieces in order, where
`exact` says whether literals match exactly. -/
inductive Splits (exact : Prop) : List Directive → List Directive → Prop where
  | nil : Splits exact [] []
  | keep (directive : Directive) {later pieced : List Directive}
      (rest : Splits exact later pieced) :
      Splits exact (directive :: later) (directive :: pieced)
  | split {pieces : List Piece} {later pieced : List Directive} (nonempty : pieces ≠ [])
      (proper : ∀ piece ∈ pieces, piece.Proper exact) (rest : Splits exact later pieced) :
      Splits exact (.emit (.checkLiteral (pieces.flatMap Piece.units)) :: later)
        (pieces.map Piece.directive ++ pieced)

namespace Splits

variable {exact : Prop} {later pieced : List Directive}

/-- A literal replaced by two shorter ones. -/
theorem halve {left right : List UInt16} (leftSome : left ≠ []) (rightSome : right ≠ [])
    (rest : Splits exact later pieced) :
    Splits exact (.emit (.checkLiteral (left ++ right)) :: later)
      (.emit (.checkLiteral left) :: .emit (.checkLiteral right) :: pieced) := by
  have halves : Splits exact
      (.emit (.checkLiteral ([Piece.literal left, .literal right].flatMap Piece.units)) :: later)
      ([Piece.literal left, .literal right].map Piece.directive ++ pieced) :=
    split (by simp) (by simp [Piece.Proper, leftSome, rightSome]) rest
  simpa [Piece.units, Piece.directive] using halves

/-- A literal of one unit replaced by a check of the unit. -/
theorem single (unit : UInt16) (holds : exact) (rest : Splits exact later pieced) :
    Splits exact (.emit (.checkLiteral [unit]) :: later) (.emitUnit unit :: pieced) :=
  have alone :
    Splits exact (.emit (.checkLiteral ([Piece.single unit].flatMap Piece.units)) :: later)
      ([Piece.single unit].map Piece.directive ++ pieced) :=
    split (by simp) (by simp [Piece.Proper, holds]) rest
  alone

end Splits

namespace Directive

/-- The number of bytes that a directive appends. -/
def size : Directive → Nat
  | .emit instruction => instruction.length
  | .emitUnit unit => (Instruction.ofUnit unit : Instruction Label).length
  | .emitRanges ranges _ => 9 + 4 * ranges.length
  | _ => 0

/-- The number of bytes that directives append together. -/
def codeSize (directives : List Directive) : Nat :=
  (directives.map size).sum

end Directive

/-- A part of the code of a program: an instruction that is kept, or a literal in pieces. -/
inductive Part where
  | keep (symbolic : Instruction Label)
  | split (pieces : List Piece)

namespace Part

/-- The instruction of a part with whole literals. -/
def whole : Part → Instruction Label
  | .keep symbolic => symbolic
  | .split pieces => .checkLiteral (pieces.flatMap Piece.units)

/-- The instructions of a part with literals in pieces. -/
def pieced : Part → List (Instruction Label)
  | .keep symbolic => [symbolic]
  | .split pieces => pieces.map Piece.check

/-- Whether the pieces of a literal are pieces that it may have. -/
def Proper (exact : Prop) : Part → Prop
  | .keep _ => True
  | .split pieces => pieces ≠ [] ∧ ∀ piece ∈ pieces, piece.Proper exact

/-- The offsets of a place between parts, with whole literals and with pieces. -/
def Meet (parts : List Part) (pc otherPc : Nat) : Prop :=
  ∃ before after, parts = before ++ after ∧ pc = totalLength (before.map whole) ∧
    otherPc = totalLength (before.flatMap pieced)

/-- The offsets at which a part begins, with whole literals and with pieces. -/
def Begin (parts : List Part) (pc otherPc : Nat) : Prop :=
  ∃ before part after, parts = before ++ part :: after ∧ pc = totalLength (before.map whole) ∧
    otherPc = totalLength (before.flatMap pieced)

variable {exact : Prop} {parts : List Part} {pc otherPc : Nat}

/-- A part has an instruction. -/
theorem pieced_ne_nil {part : Part} (proper : part.Proper exact) : part.pieced ≠ [] := by
  cases part with
  | keep => simp [pieced]
  | split pieces => simpa [pieced] using proper.1

/-- Further parts leave places where they are. -/
theorem Meet.append (meet : Meet parts pc otherPc) (more : List Part) :
    Meet (parts ++ more) pc otherPc := by
  obtain ⟨before, after, rfl, place, otherPlace⟩ := meet
  exact ⟨before, after ++ more, List.append_assoc _ _ _, place, otherPlace⟩

/-- A part begins at every place in front of the end. -/
theorem Meet.begin (meet : Meet parts pc otherPc)
    (inside : pc < totalLength (parts.map whole)) : Begin parts pc otherPc := by
  obtain ⟨before, after, rfl, rfl, rfl⟩ := meet
  cases after with
  | nil =>
    rw [List.append_nil] at inside
    exact absurd inside (Nat.lt_irrefl _)
  | cons part after => exact ⟨before, part, after, rfl, rfl, rfl⟩

/-- The places behind a part. -/
theorem meet_behind (before after : List Part) (part : Part) :
    Meet (before ++ part :: after) (totalLength (before.map whole) + part.whole.length)
      (totalLength (before.flatMap pieced) + totalLength part.pieced) :=
  ⟨before ++ [part], after, by simp, by simp, by simp⟩

/-- An instruction with whole literals stands where a part begins. -/
theorem Begin.standsAt_whole (begins : Begin parts pc otherPc) :
    StandsAt (parts.map whole) pc := by
  obtain ⟨before, part, after, rfl, rfl, -⟩ := begins
  exact ⟨before.map whole, part.whole, after.map whole, by simp, rfl⟩

/-- An instruction with literals in pieces stands where a part begins. -/
theorem Begin.standsAt (begins : Begin parts pc otherPc)
    (proper : ∀ part ∈ parts, part.Proper exact) :
    StandsAt (parts.flatMap pieced) otherPc := by
  obtain ⟨before, part, after, rfl, -, rfl⟩ := begins
  obtain ⟨first, others, same⟩ :=
    List.exists_cons_of_ne_nil (pieced_ne_nil (proper part (by simp)))
  exact ⟨before.flatMap pieced, first, others ++ after.flatMap pieced, by simp [same], rfl⟩

end Part

namespace Assembly

variable {exact : Prop} {assembly other next otherNext final : Assembly} {directive : Directive}
  {directives : List Directive} {parts : List Part} {captures counters : Nat}

/-- A directive appends the bytes that it is said to. -/
theorem pc_of_apply (applied : assembly.apply directive = .ok next) :
    next.pc = assembly.pc + directive.size := by
  cases directive with
  | emit instruction | emitUnit unit =>
    obtain ⟨_, rfl⟩ := eq_append_of_emit applied
    rfl
  | emitRanges ranges inverted =>
    rw [apply] at applied
    split at applied
    · contradiction
    · obtain ⟨_, rfl⟩ := eq_append_of_emit applied
      rfl
  | _ => exact (emitted_of_apply applied rfl).2

/-- Directives append the bytes that they are said to. -/
theorem pc_of_applyAll (applied : assembly.applyAll directives = .ok final) :
    final.pc = assembly.pc + Directive.codeSize directives := by
  induction directives generalizing assembly with
  | nil =>
    obtain rfl := Except.ok.inj applied
    rfl
  | cons directive later inductionHypothesis =>
    rw [applyAll] at applied
    split at applied
    · contradiction
    · rename_i next first
      rw [inductionHypothesis applied, pc_of_apply first, Directive.codeSize, Directive.codeSize,
        List.map_cons, List.sum_cons, Nat.add_assoc]

/-- Directives carried out behind others. -/
theorem applyAll_append {before after : List Directive}
    (applied : assembly.applyAll before = .ok next) :
    assembly.applyAll (before ++ after) = next.applyAll after := by
  induction before generalizing assembly with
  | nil =>
    obtain rfl := Except.ok.inj applied
    rfl
  | cons directive before inductionHypothesis =>
    rw [applyAll] at applied
    rw [List.cons_append, applyAll]
    split at applied
    · contradiction
    · exact inductionHypothesis applied

/-- An assembly with further instructions and nothing else changed. -/
structure Extends (assembly next : Assembly) (symbolics : List (Instruction Label)) : Prop where
  emitted : next.emitted.toList = assembly.emitted.toList ++ symbolics
  labels : next.labels = assembly.labels
  ignoreCase : next.ignoreCase = assembly.ignoreCase
  filter : next.filter = assembly.filter
  deriveFilter : next.deriveFilter = assembly.deriveFilter

/-- Further instructions bind no labels. -/
theorem Extends.place_eq {symbolics : List (Instruction Label)}
    (further : Extends assembly next symbolics) (label : Label) :
    next.place label = assembly.place label := by
  rw [place, place, further.labels]

/-- Appending an instruction changes nothing else. -/
theorem extends_append (assembly : Assembly) (symbolic : Instruction Label) :
    Extends assembly (assembly.append symbolic) [symbolic] :=
  ⟨Array.toList_push, rfl, rfl, rfl, rfl⟩

/-- An instruction that one assembly appends is appended by every assembly that has as many
labels. -/
theorem emit_of_count {symbolic : Instruction Label} (emits : assembly.emit symbolic = .ok next)
    (count : other.labels.size = assembly.labels.size) :
    next = assembly.append symbolic ∧ other.emit symbolic = .ok (other.append symbolic) := by
  obtain ⟨proper, rfl⟩ := eq_append_of_emit emits
  exact ⟨rfl, emit_eq_ok proper fun label jumps => count ▸ known_of_emit emits jumps⟩

/-- A directive that emits appends the same instruction to every assembly that has as many
labels. -/
theorem apply_of_count (applied : assembly.apply directive = .ok next)
    (emission : directive.isEmission = true) (count : other.labels.size = assembly.labels.size) :
    ∃ symbolic, next = assembly.append symbolic ∧
      other.apply directive = .ok (other.append symbolic) := by
  cases directive with
  | emit instruction => exact ⟨_, emit_of_count applied count⟩
  | emitUnit unit => exact ⟨_, emit_of_count applied count⟩
  | emitRanges ranges inverted =>
    rw [apply] at applied
    split at applied
    · contradiction
    · rename_i total counted
      obtain ⟨same, appends⟩ := emit_of_count applied count
      exact ⟨_, same, by rw [apply, counted]; exact appends⟩
  | _ => contradiction

/-- The checks of the pieces of a literal are appended in order. -/
theorem exists_pieces {pieces : List Piece} (proper : ∀ piece ∈ pieces, piece.Proper exact)
    (short : ∀ piece ∈ pieces, piece.units.length < wordLimit) (assembly : Assembly) :
    ∃ next, assembly.applyAll (pieces.map Piece.directive) = .ok next ∧
      Extends assembly next (pieces.map Piece.check) := by
  induction pieces generalizing assembly with
  | nil => exact ⟨assembly, rfl, (List.append_nil _).symm, rfl, rfl, rfl, rfl⟩
  | cons piece later inductionHypothesis =>
    have emits : assembly.apply piece.directive = assembly.emit piece.check := by
      cases piece <;> rfl
    have first : assembly.apply piece.directive = .ok (assembly.append piece.check) := by
      rw [emits]
      refine emit_eq_ok (Piece.misuse?_check (proper piece List.mem_cons_self)
        (short piece List.mem_cons_self)) fun label jumps => ?_
      rw [Piece.target?_check] at jumps
      contradiction
    obtain ⟨next, applied, rest⟩ := inductionHypothesis
      (fun other member => proper other (List.mem_cons_of_mem _ member))
      (fun other member => short other (List.mem_cons_of_mem _ member))
      (assembly.append piece.check)
    refine ⟨next, by rw [List.map_cons, applyAll, first]; exact applied, ?_, rest.labels,
      rest.ignoreCase, rest.filter, rest.deriveFilter⟩
    rw [rest.emitted, (extends_append assembly piece.check).emitted, List.append_assoc,
      List.map_cons]
    rfl

/-- A label that is bound at the same place in both assemblies, or in neither. -/
inductive Placed (parts : List Part) (assembly other : Assembly) (label : Label) : Prop where
  | bound {target otherTarget : UInt32} (place : assembly.place label = some target)
      (otherPlace : other.place label = some otherTarget)
      (meet : Part.Meet parts target.toNat otherTarget.toNat)
  | unbound (place : assembly.place label = none) (otherPlace : other.place label = none)

/-- A label that keeps its places is bound at the same place behind further parts. -/
theorem Placed.keep {label : Label} (placed : Placed parts assembly other label)
    (same : next.place label = assembly.place label)
    (otherSame : otherNext.place label = other.place label) (more : List Part) :
    Placed (parts ++ more) next otherNext label := by
  cases placed with
  | bound place otherPlace meet =>
    exact .bound (same.trans place) (otherSame.trans otherPlace) (meet.append more)
  | unbound place otherPlace => exact .unbound (same.trans place) (otherSame.trans otherPlace)

/-- Assemblies with the same parts, the first one with whole literals and the second one with
literals in pieces. Their labels are bound at the same places. -/
structure InStep (exact : Prop) (parts : List Part) (assembly other : Assembly) : Prop where
  proper : ∀ part ∈ parts, part.Proper exact
  whole : assembly.emitted.toList = parts.map Part.whole
  pieced : other.emitted.toList = parts.flatMap Part.pieced
  count : other.labels.size = assembly.labels.size
  labels : ∀ label, Placed parts assembly other label
  ignoreCase : other.ignoreCase = assembly.ignoreCase
  filter : other.filter = assembly.filter
  deriveFilter : other.deriveFilter = assembly.deriveFilter

namespace InStep

/-- Nothing has been appended to either assembly. -/
theorem empty : InStep exact [] Assembly.empty Assembly.empty where
  proper := by simp
  whole := rfl
  pieced := rfl
  count := rfl
  labels _ := .unbound rfl rfl
  ignoreCase := rfl
  filter := rfl
  deriveFilter := rfl

variable (inStep : InStep exact parts assembly other)
include inStep

/-- The assemblies with one more part. -/
theorem extend {part : Part} (proper : part.Proper exact)
    (whole : Extends assembly next [part.whole]) (pieced : Extends other otherNext part.pieced) :
    InStep exact (parts ++ [part]) next otherNext where
  proper := by
    intro present member
    rcases List.mem_append.mp member with earlier | last
    · exact inStep.proper present earlier
    · obtain rfl := List.mem_singleton.mp last
      exact proper
  whole := by rw [whole.emitted, inStep.whole, List.map_append, List.map_singleton]
  pieced := by rw [pieced.emitted, inStep.pieced, List.flatMap_append, List.flatMap_singleton]
  count := by rw [pieced.labels, whole.labels, inStep.count]
  labels label :=
    (inStep.labels label).keep (whole.place_eq label) (pieced.place_eq label) [part]
  ignoreCase := by rw [pieced.ignoreCase, whole.ignoreCase, inStep.ignoreCase]
  filter := by rw [pieced.filter, whole.filter, inStep.filter]
  deriveFilter := by rw [pieced.deriveFilter, whole.deriveFilter, inStep.deriveFilter]

/-- A directive that emits nothing makes sense in both assemblies. -/
theorem exists_apply_silent (applied : assembly.apply directive = .ok next)
    (silent : directive.isEmission = false) (fits : other.pc < wordLimit) :
    ∃ otherNext, other.apply directive = .ok otherNext ∧
      otherNext.labels.size = next.labels.size ∧ otherNext.ignoreCase = next.ignoreCase ∧
      otherNext.filter = next.filter ∧ otherNext.deriveFilter = next.deriveFilter := by
  have count := inStep.count
  cases directive with
  | emit | emitUnit | emitRanges => contradiction
  | bind label =>
    rw [apply, bind] at applied
    split at applied
    · contradiction
    · split at applied
      · contradiction
      · contradiction
      · rename_i unbound
        obtain rfl := Except.ok.inj applied
        have otherUnbound : other.labels[label.index]? = some none := by
          have known := (Array.getElem?_eq_some_iff.mp unbound).1
          rw [← count] at known
          have present := Array.getElem?_eq_getElem known
          cases inStep.labels label with
          | bound bound =>
            rw [place, unbound] at bound
            contradiction
          | unbound _ free =>
            rw [place, present] at free
            rw [present]
            exact congrArg some free
        refine ⟨{ other with
          labels := other.labels.setIfInBounds label.index (some (UInt32.ofNat other.pc)) },
          by rw [apply, bind, if_neg (Nat.not_le.mpr fits), otherUnbound], ?_,
          inStep.ignoreCase, inStep.filter, inStep.deriveFilter⟩
        simp only [Array.size_setIfInBounds, count]
  | newLabel =>
    obtain rfl := Except.ok.inj applied
    refine ⟨_, rfl, ?_, inStep.ignoreCase, inStep.filter, inStep.deriveFilter⟩
    simp only [newLabel, Array.size_push, count]
  | ignoreCase value =>
    obtain rfl := Except.ok.inj applied
    exact ⟨_, rfl, count, rfl, inStep.filter, inStep.deriveFilter⟩
  | filter value =>
    obtain rfl := Except.ok.inj applied
    exact ⟨_, rfl, count, inStep.ignoreCase, rfl, inStep.deriveFilter⟩
  | deriveFilter value =>
    obtain rfl := Except.ok.inj applied
    exact ⟨_, rfl, count, inStep.ignoreCase, inStep.filter, rfl⟩

/-- A directive that binds a label binds it at the same place in both assemblies. -/
theorem placed_of_apply (applied : assembly.apply directive = .ok next)
    (otherApplied : other.apply directive = .ok otherNext) (label : Label) :
    Placed parts next otherNext label := by
  rcases place_of_apply applied label with ⟨rfl, _, fits, bound⟩ | ⟨apart, same⟩
  · rcases place_of_apply otherApplied label with ⟨_, _, otherFits, otherBound⟩ | ⟨apart, _⟩
    · refine .bound bound otherBound ⟨parts, [], (List.append_nil _).symm, ?_, ?_⟩
      · rw [LittleEndian.toNat_ofNat_of_lt_wordLimit fits, assembly.pc_eq, inStep.whole]
      · rw [LittleEndian.toNat_ofNat_of_lt_wordLimit otherFits, other.pc_eq, inStep.pieced]
    · exact absurd rfl apart
  · rcases place_of_apply otherApplied label with ⟨rfl, _, _, _⟩ | ⟨_, otherSame⟩
    · exact absurd rfl apart
    · have placed := (inStep.labels label).keep same otherSame []
      rwa [List.append_nil] at placed

/-- A directive that is kept keeps the assemblies in step. -/
theorem apply (applied : assembly.apply directive = .ok next) (fits : other.pc < wordLimit) :
    ∃ otherNext more, other.apply directive = .ok otherNext ∧
      InStep exact (parts ++ more) next otherNext := by
  cases emission : directive.isEmission with
  | true =>
    obtain ⟨symbolic, rfl, appends⟩ := apply_of_count applied emission inStep.count
    exact ⟨_, [.keep symbolic], appends,
      inStep.extend trivial (extends_append _ _) (extends_append _ _)⟩
  | false =>
    obtain ⟨otherNext, otherApplied, count, ignoreCase, filter, deriveFilter⟩ :=
      inStep.exists_apply_silent applied emission fits
    obtain ⟨same, _⟩ := emitted_of_apply applied emission
    obtain ⟨otherSame, _⟩ := emitted_of_apply otherApplied emission
    refine ⟨otherNext, [], otherApplied, ?_⟩
    rw [List.append_nil]
    exact ⟨inStep.proper, by rw [same, inStep.whole], by rw [otherSame, inStep.pieced], count,
      inStep.placed_of_apply applied otherApplied, ignoreCase, filter, deriveFilter⟩

/-- A literal and its pieces keep the assemblies in step. -/
theorem split {pieces : List Piece} (nonempty : pieces ≠ [])
    (proper : ∀ piece ∈ pieces, piece.Proper exact)
    (applied : assembly.apply (.emit (.checkLiteral (pieces.flatMap Piece.units))) = .ok next) :
    ∃ otherNext more, other.applyAll (pieces.map Piece.directive) = .ok otherNext ∧
      InStep exact (parts ++ more) next otherNext := by
  obtain ⟨written, rfl⟩ := eq_append_of_emit applied
  have whole : Resolved assembly.Means (.checkLiteral (pieces.flatMap Piece.units))
      (.checkLiteral (pieces.flatMap Piece.units)) := .checkLiteral _
  have short : ∀ piece ∈ pieces, piece.units.length < wordLimit := by
    intro piece member
    have fits : (pieces.flatMap Piece.units).length < wordLimit := (whole.encodable written).2
    obtain ⟨before, after, rfl⟩ := List.append_of_mem member
    rw [List.flatMap_append, List.flatMap_cons, List.length_append, List.length_append] at fits
    omega
  obtain ⟨otherNext, otherApplied, further⟩ := exists_pieces proper short other
  exact ⟨otherNext, [.split pieces], otherApplied,
    inStep.extend ⟨nonempty, proper⟩ (extends_append _ _) further⟩

end InStep

end Assembly

/-- Directives whose literals are replaced by their pieces make sense where those with the whole
literals do, and the assemblies stay in step. -/
theorem Splits.exists_applyAll {exact : Prop} {directives pieced : List Directive}
    (splits : Splits exact directives pieced) {parts : List Part} {assembly other final : Assembly}
    (inStep : Assembly.InStep exact parts assembly other)
    (applied : assembly.applyAll directives = .ok final)
    (small : other.pc + Directive.codeSize pieced < wordLimit) :
    ∃ otherFinal allParts, other.applyAll pieced = .ok otherFinal ∧
      Assembly.InStep exact allParts final otherFinal := by
  induction splits generalizing parts assembly other with
  | nil =>
    obtain rfl := Except.ok.inj applied
    exact ⟨other, parts, rfl, inStep⟩
  | @keep directive later pieced rest inductionHypothesis =>
    rw [Directive.codeSize, List.map_cons, List.sum_cons] at small
    rw [Assembly.applyAll] at applied
    split at applied
    · contradiction
    · rename_i next first
      obtain ⟨otherNext, more, otherFirst, nextInStep⟩ := inStep.apply first (by omega)
      have place := Assembly.pc_of_apply otherFirst
      obtain ⟨otherFinal, allParts, otherApplied, finalInStep⟩ := inductionHypothesis nextInStep
        applied (by rw [Directive.codeSize]; omega)
      exact ⟨otherFinal, allParts, by rw [Assembly.applyAll, otherFirst]; exact otherApplied,
        finalInStep⟩
  | @split pieces later pieced nonempty proper rest inductionHypothesis =>
    rw [Directive.codeSize, List.map_append, List.sum_append] at small
    rw [Assembly.applyAll] at applied
    split at applied
    · contradiction
    · rename_i next first
      obtain ⟨otherNext, more, otherFirst, nextInStep⟩ := inStep.split nonempty proper first
      have place := Assembly.pc_of_applyAll otherFirst
      rw [Directive.codeSize] at place
      obtain ⟨otherFinal, allParts, otherApplied, finalInStep⟩ := inductionHypothesis nextInStep
        applied (by rw [Directive.codeSize]; omega)
      exact ⟨otherFinal, allParts, by rw [Assembly.applyAll_append otherFirst]; exact otherApplied,
        finalInStep⟩

namespace Assembly.InStep

variable {exact : Prop} {assembly other : Assembly} {parts : List Part} {captures counters : Nat}
  (inStep : InStep exact parts assembly other)
include inStep

/-- An instruction of the assembly with pieces is kept or the check of a piece. -/
theorem kept_or_check {symbolic : Instruction Label} (member : symbolic ∈ other.emitted.toList) :
    symbolic ∈ assembly.emitted.toList ∨ ∃ piece : Piece, symbolic = piece.check := by
  rw [inStep.pieced, List.mem_flatMap] at member
  obtain ⟨part, present, inside⟩ := member
  cases part with
  | keep kept =>
    obtain rfl := List.mem_singleton.mp inside
    rw [inStep.whole]
    exact .inl (List.mem_map.mpr ⟨_, present, rfl⟩)
  | split pieces =>
    obtain ⟨piece, _, rfl⟩ := List.mem_map.mp inside
    exact .inr ⟨piece, rfl⟩

/-- A label that is used in an assembly that can be finished is bound where a part begins. -/
theorem exists_begin_of_target (finishable : assembly.Finishable captures counters)
    {symbolic : Instruction Label} (member : symbolic ∈ assembly.emitted.toList) {label : Label}
    (jumps : symbolic.target? = some label) :
    ∃ target otherTarget, assembly.Means label target ∧ other.Means label otherTarget ∧
      Part.Begin parts target.toNat otherTarget.toNat := by
  obtain ⟨target, means, stands⟩ := finishable.targets symbolic member label jumps
  have inside := stands.lt_totalLength
  rw [inStep.whole] at inside
  cases inStep.labels label with
  | unbound free => cases means.symm.trans free
  | bound place otherPlace meet =>
    obtain rfl := Option.some.inj (means.symm.trans place)
    exact ⟨_, _, means, otherPlace, meet.begin inside⟩

/-- If the assembly with whole literals can be finished, so can the one with pieces. -/
theorem finishable (finishable : assembly.Finishable captures counters) :
    other.Finishable captures counters where
  captured := finishable.captured
  nonempty := by
    intro none
    have nonempty := finishable.nonempty
    rw [inStep.whole] at nonempty
    rw [inStep.pieced] at none
    cases parts with
    | nil => exact nonempty rfl
    | cons part later =>
      rw [List.flatMap_cons, List.append_eq_nil_iff] at none
      exact Part.pieced_ne_nil (inStep.proper part List.mem_cons_self) none.1
  operands := by
    intro symbolic member
    rcases inStep.kept_or_check member with kept | ⟨piece, rfl⟩
    · exact finishable.operands symbolic kept
    · exact Piece.operandDefect?_check captures counters
  targets := by
    intro symbolic member label jumps
    rcases inStep.kept_or_check member with kept | ⟨piece, rfl⟩
    · obtain ⟨target, otherTarget, _, means, begins⟩ :=
        inStep.exists_begin_of_target finishable kept jumps
      rw [inStep.pieced]
      exact ⟨otherTarget, means, begins.standsAt inStep.proper⟩
    · rw [Piece.target?_check] at jumps
      contradiction
  ending := by
    intro last isLast
    have ending := finishable.ending
    rw [inStep.whole] at ending
    rw [inStep.pieced] at isLast
    rcases parts.eq_nil_or_concat' with rfl | ⟨before, final, rfl⟩
    · contradiction
    · rw [List.map_append, List.map_singleton, List.getLast?_concat] at ending
      cases final with
      | keep symbolic =>
        rw [List.flatMap_append, List.flatMap_singleton, Part.pieced, List.getLast?_concat]
          at isLast
        exact ending last isLast
      | split pieces =>
        -- A literal falls through, so it is not the last instruction.
        have stops := ending _ rfl
        contradiction

/-- The front of the program with pieces admits the same filter, because the first piece of a
literal has its first unit. -/
theorem leadingFilter?_eq {ignoreCase : Bool} (caseless : exact → ignoreCase = false) :
    leadingFilter? ignoreCase other.emitted.toList =
      leadingFilter? ignoreCase assembly.emitted.toList := by
  have proper := inStep.proper
  rw [inStep.whole, inStep.pieced]
  clear inStep
  induction parts with
  | nil => rfl
  | cons part later inductionHypothesis =>
    have rest := inductionHypothesis fun other member =>
      proper other (List.mem_cons_of_mem _ member)
    cases part with
    | keep symbolic =>
      rw [List.flatMap_cons, List.map_cons, Part.pieced, Part.whole, List.singleton_append,
        leadingFilter?, leadingFilter?, rest]
    | split pieces =>
      obtain ⟨nonempty, piecesProper⟩ := proper (.split pieces) List.mem_cons_self
      obtain ⟨first, others, rfl⟩ := List.exists_cons_of_ne_nil nonempty
      have head : (first.check : Instruction Label).unitFilter? ignoreCase = _ :=
        Piece.unitFilter?_check (piecesProper first List.mem_cons_self) caseless
          (others.flatMap Piece.units)
      simp only [List.flatMap_cons, List.map_cons, Part.pieced, Part.whole, List.cons_append,
        leadingFilter?, Piece.isPassedOver_check, head]
      rfl

end Assembly.InStep

end RegexMachine
