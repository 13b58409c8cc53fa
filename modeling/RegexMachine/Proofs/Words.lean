import RegexMachine.Instruction.Encoding

/-!
# Words and tables of words

Each reader of `LittleEndian` takes exactly what its writer writes: it succeeds on the written
words in front of any rest and on nothing else, and it fails exactly on a list that is too
short. The same holds of the pairs in a range table.
-/

namespace RegexMachine

namespace LittleEndian

@[simp] theorem length_ofUInt16 (word : UInt16) : (ofUInt16 word).length = 2 := rfl

@[simp] theorem length_ofUInt32 (word : UInt32) : (ofUInt32 word).length = 4 := rfl

/-- Words of four bytes are below their limit. -/
theorem toNat_lt_wordLimit (word : UInt32) : word.toNat < wordLimit := word.toNat_lt

/-- A number below the limit is the value of a word of four bytes. -/
theorem toNat_ofNat_of_lt_wordLimit {number : Nat} (fits : number < wordLimit) :
    (UInt32.ofNat number).toNat = number := UInt32.toNat_ofNat_of_lt' fits

/-- A word of two bytes is read from its own two bytes. -/
theorem ofUInt16_append_of_uint16? {bytes rest : List UInt8} {word : UInt16}
    (read : uint16? bytes = some (word, rest)) : bytes = ofUInt16 word ++ rest := by
  unfold uint16? at read
  split at read
  · rename_i low high tail
    simp only [Option.some.injEq, Prod.mk.injEq] at read
    obtain ⟨rfl, rfl⟩ := read
    have lowBound := low.toNat_lt
    have highBound := high.toNat_lt
    have lowByte : low = UInt8.ofNat (UInt16.ofNat (low.toNat + 256 * high.toNat)).toNat := by
      apply UInt8.toNat_inj.mp
      simp only [UInt8.toNat_ofNat', UInt16.toNat_ofNat']
      omega
    have highByte :
        high = UInt8.ofNat ((UInt16.ofNat (low.toNat + 256 * high.toNat)).toNat / 256) := by
      apply UInt8.toNat_inj.mp
      simp only [UInt8.toNat_ofNat', UInt16.toNat_ofNat']
      omega
    rw [ofUInt16, List.cons_append, List.cons_append, List.nil_append, ← lowByte, ← highByte]
  · simp at read

/-- The reader of a word of two bytes undoes the writer and reads nothing else. -/
theorem uint16?_eq_some_iff {bytes rest : List UInt8} {word : UInt16} :
    uint16? bytes = some (word, rest) ↔ bytes = ofUInt16 word ++ rest := by
  constructor
  · exact ofUInt16_append_of_uint16?
  · rintro rfl
    exact uint16?_append word rest

/-- A word of two bytes is missing exactly from a list of fewer. -/
theorem uint16?_eq_none_iff {bytes : List UInt8} : uint16? bytes = none ↔ bytes.length < 2 := by
  rcases bytes with _ | ⟨low, _ | ⟨high, rest⟩⟩ <;> simp [uint16?]

/-- A word of four bytes is read from its own four bytes. -/
theorem ofUInt32_append_of_uint32? {bytes rest : List UInt8} {word : UInt32}
    (read : uint32? bytes = some (word, rest)) : bytes = ofUInt32 word ++ rest := by
  unfold uint32? at read
  split at read
  · rename_i first second third fourth tail
    simp only [Option.some.injEq, Prod.mk.injEq] at read
    obtain ⟨value, rfl⟩ := read
    have firstBound := first.toNat_lt
    have secondBound := second.toNat_lt
    have thirdBound := third.toNat_lt
    have fourthBound := fourth.toNat_lt
    have number : word.toNat =
        first.toNat + 256 * second.toNat + 65536 * third.toNat + 16777216 * fourth.toNat := by
      rw [← value, UInt32.toNat_ofNat']
      omega
    have firstByte : UInt8.ofNat word.toNat = first := by
      apply UInt8.toNat_inj.mp
      rw [UInt8.toNat_ofNat', number]
      omega
    have secondByte : UInt8.ofNat (word.toNat / 256) = second := by
      apply UInt8.toNat_inj.mp
      rw [UInt8.toNat_ofNat', number]
      omega
    have thirdByte : UInt8.ofNat (word.toNat / 65536) = third := by
      apply UInt8.toNat_inj.mp
      rw [UInt8.toNat_ofNat', number]
      omega
    have fourthByte : UInt8.ofNat (word.toNat / 16777216) = fourth := by
      apply UInt8.toNat_inj.mp
      rw [UInt8.toNat_ofNat', number]
      omega
    simp only [ofUInt32, firstByte, secondByte, thirdByte, fourthByte, List.cons_append,
      List.nil_append]
  · simp at read

/-- The reader of a word of four bytes undoes the writer and reads nothing else. -/
theorem uint32?_eq_some_iff {bytes rest : List UInt8} {word : UInt32} :
    uint32? bytes = some (word, rest) ↔ bytes = ofUInt32 word ++ rest := by
  constructor
  · exact ofUInt32_append_of_uint32?
  · rintro rfl
    exact uint32?_append word rest

/-- A word of four bytes is missing exactly from a list of fewer. -/
theorem uint32?_eq_none_iff {bytes : List UInt8} : uint32? bytes = none ↔ bytes.length < 4 := by
  rcases bytes with _ | ⟨first, _ | ⟨second, _ | ⟨third, _ | ⟨fourth, rest⟩⟩⟩⟩ <;>
    simp [uint32?]

@[simp] theorem length_flatMap_ofUInt16 (words : List UInt16) :
    (words.flatMap ofUInt16).length = 2 * words.length := by
  induction words with
  | nil => rfl
  | cons word words inductionHypothesis =>
    rw [List.flatMap_cons, List.length_append, inductionHypothesis, length_ofUInt16,
      List.length_cons]
    omega

/-- The reader of a number of words takes exactly that many written words. -/
theorem uint16s?_eq_some_iff {count : Nat} {bytes rest : List UInt8} {words : List UInt16} :
    uint16s? count bytes = some (words, rest) ↔
      words.length = count ∧ bytes = words.flatMap ofUInt16 ++ rest := by
  induction count generalizing bytes words with
  | zero =>
    simp only [uint16s?, Option.some.injEq, Prod.mk.injEq, List.length_eq_zero_iff]
    constructor
    · rintro ⟨rfl, rfl⟩
      exact ⟨rfl, rfl⟩
    · rintro ⟨rfl, rfl⟩
      exact ⟨rfl, rfl⟩
  | succ count inductionHypothesis =>
    constructor
    · intro read
      simp only [uint16s?] at read
      split at read
      · simp at read
      · rename_i word middle head
        split at read
        · simp at read
        · rename_i later final tail
          simp only [Option.some.injEq, Prod.mk.injEq] at read
          obtain ⟨rfl, rfl⟩ := read
          obtain ⟨many, rfl⟩ := inductionHypothesis.mp tail
          refine ⟨by rw [List.length_cons, many], ?_⟩
          rw [ofUInt16_append_of_uint16? head, List.flatMap_cons, List.append_assoc]
    · rintro ⟨many, rfl⟩
      cases words with
      | nil => simp at many
      | cons word words =>
        have tail : uint16s? count (words.flatMap ofUInt16 ++ rest) = some (words, rest) :=
          inductionHypothesis.mpr ⟨Nat.succ.inj many, rfl⟩
        rw [List.flatMap_cons, List.append_assoc]
        simp only [uint16s?, uint16?_append, tail]

/-- Words are missing exactly from a list with fewer than two bytes for each. -/
theorem uint16s?_eq_none_iff {count : Nat} {bytes : List UInt8} :
    uint16s? count bytes = none ↔ bytes.length < 2 * count := by
  induction count generalizing bytes with
  | zero => simp [uint16s?]
  | succ count inductionHypothesis =>
    cases head : uint16? bytes with
    | none =>
      have short := uint16?_eq_none_iff.mp head
      simp only [uint16s?, head, true_iff]
      omega
    | some found =>
      obtain ⟨word, middle⟩ := found
      have taken := length_of_uint16? head
      have rest : uint16s? count middle = none ↔ middle.length < 2 * count :=
        inductionHypothesis
      simp only [uint16s?, head]
      cases tail : uint16s? count middle with
      | none =>
        have short := rest.mp tail
        simp only [true_iff]
        omega
      | some later =>
        have long : ¬ middle.length < 2 * count := fun short => by
          rw [rest.mpr short] at tail
          simp at tail
        simp only [reduceCtorEq, false_iff]
        omega

end LittleEndian

namespace UnitRange

open LittleEndian

@[simp] theorem length_encode (range : UnitRange) : range.encode.length = 4 := rfl

@[simp] theorem length_flatMap_encode (ranges : List UnitRange) :
    (ranges.flatMap encode).length = 4 * ranges.length := by
  induction ranges with
  | nil => rfl
  | cons range ranges inductionHypothesis =>
    rw [List.flatMap_cons, List.length_append, inductionHypothesis, length_encode,
      List.length_cons]
    omega

/-- The reader of a number of ranges takes exactly that many written ranges. -/
theorem decode?_eq_some_iff {count : Nat} {bytes rest : List UInt8} {ranges : List UnitRange} :
    decode? count bytes = some (ranges, rest) ↔
      ranges.length = count ∧ bytes = ranges.flatMap encode ++ rest := by
  induction count generalizing bytes ranges with
  | zero =>
    simp only [decode?, Option.some.injEq, Prod.mk.injEq, List.length_eq_zero_iff]
    constructor
    · rintro ⟨rfl, rfl⟩
      exact ⟨rfl, rfl⟩
    · rintro ⟨rfl, rfl⟩
      exact ⟨rfl, rfl⟩
  | succ count inductionHypothesis =>
    constructor
    · intro read
      simp only [decode?] at read
      split at read
      · simp at read
      · rename_i first afterFirst readFirst
        split at read
        · simp at read
        · rename_i last afterLast readLast
          split at read
          · simp at read
          · rename_i later final readLater
            simp only [Option.some.injEq, Prod.mk.injEq] at read
            obtain ⟨rfl, rfl⟩ := read
            obtain ⟨many, rfl⟩ := inductionHypothesis.mp readLater
            refine ⟨by rw [List.length_cons, many], ?_⟩
            rw [ofUInt16_append_of_uint16? readFirst, ofUInt16_append_of_uint16? readLast,
              List.flatMap_cons, encode, List.append_assoc, List.append_assoc]
    · rintro ⟨many, rfl⟩
      cases ranges with
      | nil => simp at many
      | cons range ranges =>
        have tail : decode? count (ranges.flatMap encode ++ rest) = some (ranges, rest) :=
          inductionHypothesis.mpr ⟨Nat.succ.inj many, rfl⟩
        rw [List.flatMap_cons, encode, List.append_assoc, List.append_assoc]
        simp only [decode?, uint16?_append, tail]

/-- Ranges are missing exactly from a list with fewer than four bytes for each. -/
theorem decode?_eq_none_iff {count : Nat} {bytes : List UInt8} :
    decode? count bytes = none ↔ bytes.length < 4 * count := by
  induction count generalizing bytes with
  | zero => simp [decode?]
  | succ count inductionHypothesis =>
    cases readFirst : uint16? bytes with
    | none =>
      have short := uint16?_eq_none_iff.mp readFirst
      simp only [decode?, readFirst, true_iff]
      omega
    | some found =>
      obtain ⟨first, afterFirst⟩ := found
      have firstTaken := length_of_uint16? readFirst
      cases readLast : uint16? afterFirst with
      | none =>
        have short := uint16?_eq_none_iff.mp readLast
        simp only [decode?, readFirst, readLast, true_iff]
        omega
      | some found =>
        obtain ⟨last, afterLast⟩ := found
        have lastTaken := length_of_uint16? readLast
        have rest : decode? count afterLast = none ↔ afterLast.length < 4 * count :=
          inductionHypothesis
        simp only [decode?, readFirst, readLast]
        cases tail : decode? count afterLast with
        | none =>
          have short := rest.mp tail
          simp only [true_iff]
          omega
        | some later =>
          have long : ¬ afterLast.length < 4 * count := fun short => by
            rw [rest.mpr short] at tail
            simp at tail
          simp only [reduceCtorEq, false_iff]
          omega

end UnitRange

end RegexMachine
