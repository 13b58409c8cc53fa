/-!
# Limits

The numbers up to which the machine counts.
-/

namespace RegexMachine

/-- The largest number that a slot holds: positions, depths and resume offsets are kept in
slots. -/
def maxSlot : Nat := 0x7FFFFFFF

/-- Numbers from here on do not fit an operand of an encoded instruction. -/
def wordLimit : Nat := 0x100000000

/-- Cells from here on can not be counted. -/
def cellLimit : Nat := 0x10000000000000000

/-- The most cells that one array holds: a cell takes four bytes, and an array takes less than
`2 ^ 63` of them. -/
def arrayLimit : Nat := 0x1FFFFFFFFFFFFFFF

/-- How far the stack of a run can grow. A run asks for memory only when its stack has to be
larger than it ever was, and the first request that is refused ends the run, so one number tells
all that an allocator does in a run. -/
structure StackLimit where
  /-- The most frames that the stack may hold. -/
  frames : Nat
  /-- The most cells that there is memory for. -/
  cells : Nat
  deriving DecidableEq, Repr

end RegexMachine
