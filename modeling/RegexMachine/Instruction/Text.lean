import RegexMachine.Instruction
import RegexMachine.Text

/-!
# The text of instructions

How an instruction is spelled in listings and traces. Units, slots and offsets are decimal.
-/

namespace RegexMachine

namespace Anchor

/-- The name of an anchor. -/
def name : Anchor → String
  | .bob => "Bob"
  | .eob => "Eob"
  | .bol => "Bol"
  | .eol => "Eol"
  | .wordBoundary => "WordBoundary"
  | .notWordBoundary => "NotWordBoundary"

end Anchor

namespace UnitRange

/-- The two ends of a range. -/
def text (range : UnitRange) : String :=
  toString range.first.toNat ++ "..=" ++ toString range.last.toNat

end UnitRange

namespace Instruction

/-- The units of a choice or of a literal. -/
def unitsText (units : List UInt16) : String :=
  Text.list (units.map fun unit => toString unit.toNat)

/-- The listed form of an instruction. -/
def text : Instruction UInt32 → String
  | .storeSp slot => Text.applied "StoreSp" (toString slot.toNat)
  | .storePosition slot => Text.applied "StorePosition" (toString slot.toNat)
  | .positionTest slot => Text.applied "PositionTest" (toString slot.toNat)
  | .assertionSuccess slot target =>
    Text.labelled "AssertionSuccess"
      [("slot", toString slot.toNat), ("target", toString target.toNat)]
  | .assertionFailure slot => Text.applied "AssertionFailure" (toString slot.toNat)
  | .assertion anchor => Text.applied "Assertion" anchor.name
  | .startCapture group => Text.applied "StartCapture" (toString group.toNat)
  | .endCapture group => Text.applied "EndCapture" (toString group.toNat)
  | .clearCaptures first stop =>
    Text.labelled "ClearCaptures"
      [("from", toString first.toNat), ("to", toString stop.toNat)]
  | .counterZero slot => Text.applied "CounterZero" (toString slot.toNat)
  | .counterNext slot max target =>
    Text.labelled "CounterNext"
      [("slot", toString slot.toNat), ("max", toString max.toNat),
       ("target", toString target.toNat)]
  | .pushBacktrack target => Text.applied "PushBacktrack" (toString target.toNat)
  | .backReference group ignoreCase =>
    Text.labelled "BackReference"
      [("group", toString group.toNat), ("casei", Text.truth ignoreCase)]
  | .checkByte unit => Text.applied "Check1ByteChar" (toString unit.toNat)
  | .checkUnit unit => Text.applied "Check2ByteChar" (toString unit.toNat)
  | .checkAny units => Text.applied "CheckCharOr" (unitsText units)
  | .checkRange ranges _ inverted =>
    Text.labelled "CheckRange"
      [("ranges", Text.list (ranges.map UnitRange.text)), ("inverted", Text.truth inverted)]
  | .checkLiteral units => Text.applied "CheckNChars" (unitsText units)
  | .jump target => Text.applied "Jump" (toString target.toNat)
  | .failure => "Failure"
  | .success => "Success"

end Instruction

end RegexMachine
