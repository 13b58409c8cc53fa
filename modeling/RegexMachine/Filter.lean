import RegexMachine.Text

/-!
# Filters

A filter is a necessary condition on the unit at the start of a match, cheap enough to try at
every start. It names one unit, or bounds the bits of the unit by a mask.
-/

namespace RegexMachine

/-- A necessary condition on the first unit of a match. -/
inductive Filter where
  /-- The unit itself. -/
  | one (unit : UInt16)
  /-- Every unit whose bits are all among these. -/
  | mask (bits : UInt16)
  deriving DecidableEq, Repr

namespace Filter

/-- Whether a match may start at a unit. -/
def accepts (filter : Filter) (unit : UInt16) : Bool :=
  match filter with
  | .one only => unit == only
  | .mask bits => bits &&& unit == unit

/-- The tightest filter that accepts every listed unit. An empty list gives none, because
then the first unit can be anything. -/
def ofUnits? : List UInt16 → Option Filter
  | [] => none
  | first :: others =>
    if others.all (· == first) then some (.one first)
    else some (.mask (others.foldl (· ||| ·) first))

/-- All the bits up to and including the highest bit of a unit. -/
def bitsUpTo (unit : UInt16) : UInt16 :=
  UInt16.ofNat (1 <<< (unit.toNat.log2 + 1) - 1)

/-- The bits that occur in the units from `first` to `last`: both ends, and every bit from the
highest one in which they differ downwards. -/
def rangeMask (first last : UInt16) : UInt16 :=
  if first == last then first
  else first ||| last ||| bitsUpTo (first ^^^ last)

/-- The bits a filter allows. -/
def bits : Filter → UInt16
  | .one unit => unit
  | .mask bits => bits

/-- The filter widened to a mask that accepts the units from `first` to `last` too. -/
def withRange (filter : Filter) (first last : UInt16) : Filter :=
  .mask (filter.bits ||| rangeMask first last)

/-- The listed form of a filter. -/
def text : Filter → String
  | .one unit => Text.applied "OneChar" (toString unit.toNat)
  | .mask bits => Text.applied "Mask" (toString bits.toNat)

end Filter

end RegexMachine
