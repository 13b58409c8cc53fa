import RegexMachine.LetterCase.Table

/-!
# Letter case

The upper and lower case of single units, and equality up to case. A unit without a
single-unit image is its own image.
-/

namespace RegexMachine.LetterCase

/-- The upper-case form of a unit. -/
def upper (unit : UInt16) : UInt16 :=
  if unit < 0x80 then
    if 0x61 ≤ unit && unit ≤ 0x7A then unit - 0x20 else unit
  else UInt16.ofNat (CaseRun.lookup upperRuns unit.toNat)

/-- The lower-case form of a unit. -/
def lower (unit : UInt16) : UInt16 :=
  if unit < 0x80 then
    if 0x41 ≤ unit && unit ≤ 0x5A then unit + 0x20 else unit
  else UInt16.ofNat (CaseRun.lookup lowerRuns unit.toNat)

/-- Whether a unit is the target or one of the target's two case forms. The relation is not
symmetric: several units can share one case form. -/
def isVariant (unit target : UInt16) : Bool :=
  unit == target || unit == upper target || unit == lower target

end RegexMachine.LetterCase
