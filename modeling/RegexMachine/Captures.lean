import RegexMachine.Thread

/-!
# Captures

The groups of a match, kept as the ends of each group one after the other. A group can be
asked for by its number, and the groups can be walked from both ends at once.
-/

namespace RegexMachine

/-- The text between two ends, if both are set. -/
def Span.ofEnds? (start stop : Int) : Option Span :=
  if start < 0 ∨ stop < 0 then none else some ⟨start.toNat, stop.toNat⟩

/-- The groups of a match. -/
structure Captures where
  /-- The start and the end of each group in turn. -/
  slots : Array Int
  deriving DecidableEq, Repr

namespace Captures

/-- The number of groups, the whole match included. -/
def length (captures : Captures) : Nat :=
  captures.slots.size / 2

/-- The text of a group, if there is such a group and it took part in the match. -/
def get? (captures : Captures) (group : Nat) : Option Span :=
  match captures.slots[2 * group]?, captures.slots[2 * group + 1]? with
  | some start, some stop => Span.ofEnds? start stop
  | _, _ => none

/-- The first cell of a group. Cells are counted up to a limit: of a group beyond it this is the
last cell that can be counted. -/
def firstCell (group : Nat) : Nat :=
  min (2 * group) (cellLimit - 1)

/-- The text of a group as it is read from the two cells of the group. This is a fault where the
cells can not be counted, or where only the first of them is there. -/
def lookup (captures : Captures) (group : Nat) : Except Fault (Option Span) :=
  let cell := firstCell group
  if captures.slots.size ≤ cell then .ok none
  else if cellLimit ≤ cell + 2 then .error .noSuchCell
  else
    match captures.slots[cell]?, captures.slots[cell + 1]? with
    | some start, some stop => .ok (Span.ofEnds? start stop)
    | _, _ => .error .noSuchCell

/-- Numbers taken two at a time. -/
def pairs : List Int → List (Int × Int)
  | start :: stop :: later => (start, stop) :: pairs later
  | _ => []

/-- The groups that a walk has still to yield. -/
structure Cursor where
  pending : List (Int × Int)
  deriving DecidableEq, Repr

/-- A walk over all groups. -/
def cursor (captures : Captures) : Cursor :=
  ⟨pairs captures.slots.toList⟩

/-- All groups in order. -/
def toList (captures : Captures) : List (Option Span) :=
  (pairs captures.slots.toList).map fun ends => Span.ofEnds? ends.1 ends.2

namespace Cursor

/-- The number of groups still to be yielded. -/
def remaining (cursor : Cursor) : Nat :=
  cursor.pending.length

/-- The first of the pending groups, and the walk after it. -/
def next? (cursor : Cursor) : Option (Option Span × Cursor) :=
  match cursor.pending with
  | [] => none
  | ends :: later => some (Span.ofEnds? ends.1 ends.2, ⟨later⟩)

/-- The last of the pending groups, and the walk without it. -/
def nextBack? (cursor : Cursor) : Option (Option Span × Cursor) :=
  match cursor.pending.getLast? with
  | none => none
  | some ends => some (Span.ofEnds? ends.1 ends.2, ⟨cursor.pending.dropLast⟩)

end Cursor

end Captures

end RegexMachine
