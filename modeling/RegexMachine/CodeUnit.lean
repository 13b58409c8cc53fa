/-!
# Code units

A subject is a sequence of fixed-width units. The machine sees each unit through its
16-bit value, so the classes below are predicates on `UInt16`.
-/

namespace RegexMachine

/-- A fixed-width unit of a subject: `UInt8` for narrow subjects, `UInt16` for wide ones. -/
class CodeUnit (α : Type) where
  /-- The 16-bit value of a unit. -/
  widen : α → UInt16
  /-- Different units have different values. -/
  widen_injective : ∀ left right, widen left = widen right → left = right

namespace CodeUnit

instance : CodeUnit UInt8 where
  widen := UInt8.toUInt16
  widen_injective left right same := by
    have values := congrArg UInt16.toNat same
    simp only [UInt8.toNat_toUInt16] at values
    exact UInt8.toNat_inj.mp values

instance : CodeUnit UInt16 where
  widen unit := unit
  widen_injective _ _ same := same

/-- The word units: ASCII digits, ASCII letters and the low line. -/
def isWord (unit : UInt16) : Bool :=
  (0x30 ≤ unit && unit ≤ 0x39) || (0x41 ≤ unit && unit ≤ 0x5A) ||
    (0x61 ≤ unit && unit ≤ 0x7A) || unit == 0x5F

/-- The units that end a line: line feed, carriage return, line separator and paragraph
separator. -/
def isLineTerminator (unit : UInt16) : Bool :=
  unit == 0x0A || unit == 0x0D || unit == 0x2028 || unit == 0x2029

end CodeUnit

/-- The value of the unit at a position, if the subject reaches that far. -/
def unitAt? {α : Type} [CodeUnit α] (subject : Array α) (position : Nat) : Option UInt16 :=
  subject[position]?.map CodeUnit.widen

end RegexMachine
