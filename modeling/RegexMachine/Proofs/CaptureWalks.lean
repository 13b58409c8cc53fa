import RegexMachine.Captures

/-!
# Walks over captures

The groups of a match can be looked up by their numbers and walked from both ends. A walk is a
sequence of calls on its two sides: what the front has yielded, what is left, and what the back has
yielded in reverse order are always the groups of the walk (`Cursor.groups_calls`), and every call
yields one of them until none is left (`Cursor.remaining_calls`). The groups of a walk over all
groups are those that are found by number (`Captures.groups_cursor`), so the two ways of reading
captures agree (`Captures.walk_agrees`).
-/

namespace RegexMachine

namespace Captures

/-- A side of a walk. -/
inductive Side where
  | front
  | back
  deriving DecidableEq, Repr

/-- A call on a side of a walk, with the group that it yielded if there was one. -/
structure Answer where
  side : Side
  yielded : Option (Option Span)
  deriving DecidableEq, Repr

/-- The groups that the calls on a side yielded, in the order of the calls. -/
def taken (side : Side) (answers : List Answer) : List (Option Span) :=
  answers.filterMap fun answer => if answer.side = side then answer.yielded else none

namespace Cursor

/-- The groups that a walk has still to yield, in order. -/
def groups (cursor : Cursor) : List (Option Span) :=
  cursor.pending.map fun ends => Span.ofEnds? ends.1 ends.2

/-- The next group of a side, and the walk after it. -/
def take? (cursor : Cursor) : Side → Option (Option Span × Cursor)
  | .front => cursor.next?
  | .back => cursor.nextBack?

/-- What calls answer one after the other, and the walk after them. A call that yields nothing
leaves the walk as it is. -/
def calls (cursor : Cursor) : List Side → List Answer × Cursor
  | [] => ([], cursor)
  | side :: later =>
    match cursor.take? side with
    | none =>
      let rest := cursor.calls later
      (⟨side, none⟩ :: rest.1, rest.2)
    | some (group, after) =>
      let rest := after.calls later
      (⟨side, some group⟩ :: rest.1, rest.2)

variable {cursor after : Cursor} {side : Side} {group : Option Span}

/-- The groups that are left are as many as the walk reports. -/
@[simp] theorem length_groups (cursor : Cursor) : cursor.groups.length = cursor.remaining :=
  List.length_map _

/-- A call yields nothing exactly if nothing is left. -/
theorem take?_eq_none_iff : cursor.take? side = none ↔ cursor.remaining = 0 := by
  obtain ⟨pending⟩ := cursor
  rw [remaining, List.length_eq_zero_iff]
  cases side with
  | front => cases pending <;> simp [take?, next?]
  | back =>
    rw [← List.getLast?_eq_none_iff]
    cases found : pending.getLast? <;> simp [take?, nextBack?, found]

/-- A call on the front yields the first group that is left. -/
theorem groups_of_take?_front (takes : cursor.take? .front = some (group, after)) :
    cursor.groups = group :: after.groups := by
  obtain ⟨pending⟩ := cursor
  cases pending with
  | nil => contradiction
  | cons ends later =>
    obtain ⟨rfl, rfl⟩ := Prod.mk.inj (Option.some.inj takes)
    rfl

/-- A call on the back yields the last group that is left. -/
theorem groups_of_take?_back (takes : cursor.take? .back = some (group, after)) :
    cursor.groups = after.groups ++ [group] := by
  obtain ⟨pending⟩ := cursor
  simp only [take?, nextBack?] at takes
  split at takes
  · contradiction
  · rename_i ends last
    obtain ⟨rfl, rfl⟩ := Prod.mk.inj (Option.some.inj takes)
    obtain ⟨earlier, rfl⟩ := List.getLast?_eq_some_iff.mp last
    simp [groups]

/-- A call that yields a group leaves one group less. -/
theorem remaining_of_take? (takes : cursor.take? side = some (group, after)) :
    cursor.remaining = after.remaining + 1 := by
  cases side with
  | front =>
    rw [← length_groups, groups_of_take?_front takes, List.length_cons, length_groups]
  | back =>
    rw [← length_groups, groups_of_take?_back takes, List.length_append, length_groups]
    rfl

/-- What the front has yielded, what is left and what the back has yielded, in reverse order, are
the groups of the walk in order. -/
theorem groups_calls (cursor : Cursor) (sides : List Side) :
    taken .front (cursor.calls sides).1 ++ (cursor.calls sides).2.groups ++
        (taken .back (cursor.calls sides).1).reverse =
      cursor.groups := by
  induction sides generalizing cursor with
  | nil => simp [calls, taken]
  | cons side later inductionHypothesis =>
    cases takes : cursor.take? side with
    | none => cases side <;> simpa [calls, takes, taken] using inductionHypothesis cursor
    | some result =>
      obtain ⟨group, after⟩ := result
      have rest := inductionHypothesis after
      cases side with
      | front =>
        rw [groups_of_take?_front takes, ← rest]
        simp [calls, takes, taken]
      | back =>
        rw [groups_of_take?_back takes, ← rest]
        simp [calls, takes, taken]

/-- Every call yields a group until none is left. -/
theorem remaining_calls (cursor : Cursor) (sides : List Side) :
    (cursor.calls sides).2.remaining = cursor.remaining - sides.length := by
  induction sides generalizing cursor with
  | nil => rfl
  | cons side later inductionHypothesis =>
    cases takes : cursor.take? side with
    | none =>
      have exhausted := take?_eq_none_iff.mp takes
      simp only [calls, takes, inductionHypothesis, exhausted, Nat.zero_sub]
    | some result =>
      obtain ⟨group, after⟩ := result
      simp only [calls, takes, inductionHypothesis, remaining_of_take? takes, List.length_cons]
      omega

/-- The groups that are left are those of the walk that no side has yielded. -/
theorem remaining_add_taken (cursor : Cursor) (sides : List Side) :
    (cursor.calls sides).2.remaining + (taken .front (cursor.calls sides).1).length +
        (taken .back (cursor.calls sides).1).length =
      cursor.remaining := by
  have counts := congrArg List.length (cursor.groups_calls sides)
  simp only [List.length_append, List.length_reverse, length_groups] at counts
  omega

/-- A walk that has nothing left answers every call with nothing and stays as it is. -/
theorem calls_of_exhausted (exhausted : cursor.remaining = 0) (sides : List Side) :
    cursor.calls sides = (sides.map fun side => ⟨side, none⟩, cursor) := by
  induction sides with
  | nil => rfl
  | cons side later inductionHypothesis =>
    simp only [calls, take?_eq_none_iff.mpr exhausted, inductionHypothesis, List.map_cons]

end Cursor

/-- Numbers taken two at a time are the ones at twice an index and behind it. -/
theorem getElem?_pairs (numbers : List Int) (index : Nat) :
    (pairs numbers)[index]? =
      match numbers[2 * index]?, numbers[2 * index + 1]? with
      | some first, some second => some (first, second)
      | _, _ => none := by
  induction numbers using pairs.induct generalizing index with
  | case1 start stop later inductionHypothesis =>
    cases index with
    | zero => rfl
    | succ index => exact inductionHypothesis index
  | case2 numbers short =>
    -- Fewer than two numbers are left.
    match numbers, short with
    | [], _ => simp [pairs]
    | [last], _ => simp [pairs]
    | start :: stop :: later, short => exact absurd rfl (short start stop later)

/-- There are half as many pairs as numbers. -/
theorem length_pairs (numbers : List Int) : (pairs numbers).length = numbers.length / 2 := by
  induction numbers using pairs.induct with
  | case1 start stop later inductionHypothesis =>
    rw [pairs, List.length_cons, inductionHypothesis, List.length_cons, List.length_cons]
    omega
  | case2 numbers short =>
    match numbers, short with
    | [], _ => rfl
    | [last], _ => simp [pairs]
    | start :: stop :: later, short => exact absurd rfl (short start stop later)

variable {captures : Captures} {group : Nat}

/-- A walk over all groups has as many left as there are groups. -/
@[simp] theorem remaining_cursor (captures : Captures) :
    captures.cursor.remaining = captures.length := by
  rw [cursor, Cursor.remaining, length_pairs, Array.length_toList, length]

/-- A group is looked up at its number in the walk over all groups. -/
theorem getElem?_groups_cursor (inGroups : group < captures.length) :
    captures.cursor.groups[group]? = some (captures.get? group) := by
  rw [length] at inGroups
  have first : 2 * group < captures.slots.size := by omega
  have second : 2 * group + 1 < captures.slots.size := by omega
  rw [Cursor.groups, cursor, List.getElem?_map, getElem?_pairs, get?]
  simp only [Array.getElem?_toList, Array.getElem?_eq_getElem first,
    Array.getElem?_eq_getElem second]
  rfl

section

variable (paired : captures.slots.size % 2 = 0) (countable : captures.slots.size < cellLimit)

include paired countable

/-- Looking a group up reads both its cells or none, and never beyond what can be counted. -/
theorem lookup_eq_ok (group : Nat) : captures.lookup group = .ok (captures.get? group) := by
  rw [lookup, firstCell, get?]
  by_cases absent : captures.slots.size ≤ 2 * group
  · rw [if_pos (by omega), Array.getElem?_eq_none absent]
  · have first : 2 * group < captures.slots.size := by omega
    have second : 2 * group + 1 < captures.slots.size := by omega
    have counted : min (2 * group) (cellLimit - 1) = 2 * group := by omega
    rw [counted, if_neg (by omega), if_neg (by omega), Array.getElem?_eq_getElem first,
      Array.getElem?_eq_getElem second]

/-- The groups of a walk over all groups are those that are looked up, in order. -/
theorem groups_cursor :
    captures.cursor.groups.map .ok = (List.range captures.length).map captures.lookup := by
  refine List.ext_getElem? fun group => ?_
  by_cases inGroups : group < captures.length
  · rw [List.getElem?_map, getElem?_groups_cursor inGroups, List.getElem?_map,
      List.getElem?_range inGroups]
    exact congrArg some (lookup_eq_ok paired countable group).symm
  · rw [List.getElem?_eq_none, List.getElem?_eq_none]
    · simpa using inGroups
    · simpa using inGroups

end

/-- What it means that the answers of a walk agree with looking the groups up. -/
structure Agrees (captures : Captures) (sides : List Side) (answers : List Answer)
    (after : Cursor) : Prop where
  /-- The groups from the front, the groups that are left and the groups from the back in reverse
  order are those that are looked up, in order. -/
  groups : (taken .front answers ++ after.groups ++ (taken .back answers).reverse).map .ok =
    (List.range captures.length).map captures.lookup
  /-- The walk reports how many groups it has not yielded. -/
  remaining : after.remaining =
    captures.length - ((taken .front answers).length + (taken .back answers).length)
  /-- Every call yields a group until all are yielded. -/
  yields : (taken .front answers).length + (taken .back answers).length =
    min sides.length captures.length
  /-- A walk that has nothing left has yielded every group, and no group twice. -/
  complete : after.remaining = 0 → (taken .front answers ++ (taken .back answers).reverse).map .ok =
    (List.range captures.length).map captures.lookup
  /-- It answers every further call on either side with nothing. -/
  exhausted : after.remaining = 0 → ∀ later,
    after.calls later = (later.map fun side => ⟨side, none⟩, after)

/-- The two ways of reading captures agree: whatever the order of the calls on the two sides, a
walk yields every group once, and it yields what is found by number. Looking up never faults, and
finds nothing from the number of groups on. -/
theorem walk_agrees (captures : Captures) (paired : captures.slots.size % 2 = 0)
    (countable : captures.slots.size < cellLimit) :
    (∀ sides, captures.Agrees sides (captures.cursor.calls sides).1
      (captures.cursor.calls sides).2) ∧
    ∀ group, captures.length ≤ group → captures.lookup group = .ok none := by
  constructor
  · intro sides
    have groups := captures.cursor.groups_calls sides
    have counts := captures.cursor.remaining_add_taken sides
    have left := captures.cursor.remaining_calls sides
    rw [remaining_cursor] at counts left
    refine ⟨?_, by omega, by omega, ?_, fun nothing => Cursor.calls_of_exhausted nothing⟩
    · rw [groups, groups_cursor paired countable]
    · intro nothing
      have empty : (captures.cursor.calls sides).2.groups = [] :=
        List.eq_nil_of_length_eq_zero ((Cursor.length_groups _).trans nothing)
      rw [empty, List.append_nil] at groups
      rw [groups, groups_cursor paired countable]
  · intro group beyond
    rw [length] at beyond
    rw [lookup_eq_ok paired countable, get?, Array.getElem?_eq_none (by omega)]

/-- Three groups, of which the second one has no text, walked from both ends to the middle and
further. -/
theorem walk_agrees_three :
    (#[2, 7, -1, -1, 3, 3] : Array Int).size % 2 = 0 ∧
      (#[2, 7, -1, -1, 3, 3] : Array Int).size < cellLimit ∧
      Agrees ⟨#[2, 7, -1, -1, 3, 3]⟩ [.back, .front, .front, .back]
        [⟨.back, some (some ⟨3, 3⟩)⟩, ⟨.front, some (some ⟨2, 7⟩)⟩, ⟨.front, some none⟩,
          ⟨.back, none⟩] ⟨[]⟩ ∧
      lookup ⟨#[2, 7, -1, -1, 3, 3]⟩ (cellLimit - 1) = .ok none := by
  have paired : (#[2, 7, -1, -1, 3, 3] : Array Int).size % 2 = 0 := by decide
  have countable : (#[2, 7, -1, -1, 3, 3] : Array Int).size < cellLimit := by decide
  obtain ⟨walks, beyond⟩ := walk_agrees ⟨#[2, 7, -1, -1, 3, 3]⟩ paired countable
  exact ⟨paired, countable, walks [.back, .front, .front, .back], beyond _ (by decide)⟩

end Captures

end RegexMachine
