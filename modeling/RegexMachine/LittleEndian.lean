/-!
# Little-endian words

Words of two and four bytes, the lowest byte first, and the readers that take them off the
front of a byte list. A reader answers with what it read and what is left, or nothing if the
list is too short. Each reader undoes its writer in front of any rest.
-/

namespace RegexMachine.LittleEndian

/-- The two bytes of a word. -/
def ofUInt16 (word : UInt16) : List UInt8 :=
  [UInt8.ofNat word.toNat, UInt8.ofNat (word.toNat / 256)]

/-- The four bytes of a word. -/
def ofUInt32 (word : UInt32) : List UInt8 :=
  [UInt8.ofNat word.toNat, UInt8.ofNat (word.toNat / 256),
   UInt8.ofNat (word.toNat / 65536), UInt8.ofNat (word.toNat / 16777216)]

/-- Take a word of two bytes off the front. -/
def uint16? : List UInt8 → Option (UInt16 × List UInt8)
  | low :: high :: rest => some (UInt16.ofNat (low.toNat + 256 * high.toNat), rest)
  | _ => none

/-- Take a word of four bytes off the front. -/
def uint32? : List UInt8 → Option (UInt32 × List UInt8)
  | first :: second :: third :: fourth :: rest =>
    some (UInt32.ofNat (first.toNat + 256 * second.toNat + 65536 * third.toNat +
      16777216 * fourth.toNat), rest)
  | _ => none

/-- Take a number of two-byte words off the front. -/
def uint16s? : Nat → List UInt8 → Option (List UInt16 × List UInt8)
  | 0, bytes => some ([], bytes)
  | count + 1, bytes =>
    match uint16? bytes with
    | none => none
    | some (word, rest) =>
      match uint16s? count rest with
      | none => none
      | some (words, rest) => some (word :: words, rest)

/-- A written word of two bytes is read back. -/
theorem uint16?_append (word : UInt16) (rest : List UInt8) :
    uint16? (ofUInt16 word ++ rest) = some (word, rest) := by
  have bound := word.toNat_lt
  simp only [ofUInt16, List.cons_append, List.nil_append, uint16?, Option.some.injEq,
    Prod.mk.injEq, and_true]
  apply UInt16.toNat_inj.mp
  simp only [UInt16.toNat_ofNat', UInt8.toNat_ofNat']
  omega

/-- A written word of four bytes is read back. -/
theorem uint32?_append (word : UInt32) (rest : List UInt8) :
    uint32? (ofUInt32 word ++ rest) = some (word, rest) := by
  have bound := word.toNat_lt
  simp only [ofUInt32, List.cons_append, List.nil_append, uint32?, Option.some.injEq,
    Prod.mk.injEq, and_true]
  apply UInt32.toNat_inj.mp
  simp only [UInt32.toNat_ofNat', UInt8.toNat_ofNat']
  omega

/-- Reading a word of two bytes takes two bytes. -/
theorem length_of_uint16? {bytes rest : List UInt8} {word : UInt16}
    (read : uint16? bytes = some (word, rest)) : bytes.length = 2 + rest.length := by
  unfold uint16? at read
  split at read
  · simp only [Option.some.injEq, Prod.mk.injEq] at read
    rw [← read.2]
    simp only [List.length_cons]
    omega
  · simp at read

/-- Reading a word of four bytes takes four bytes. -/
theorem length_of_uint32? {bytes rest : List UInt8} {word : UInt32}
    (read : uint32? bytes = some (word, rest)) : bytes.length = 4 + rest.length := by
  unfold uint32? at read
  split at read
  · simp only [Option.some.injEq, Prod.mk.injEq] at read
    rw [← read.2]
    simp only [List.length_cons]
    omega
  · simp at read

/-- Reading words of two bytes gives as many as were asked for, and takes two bytes each. -/
theorem length_of_uint16s? {count : Nat} {bytes rest : List UInt8} {words : List UInt16}
    (read : uint16s? count bytes = some (words, rest)) :
    words.length = count ∧ bytes.length = 2 * count + rest.length := by
  induction count generalizing bytes words with
  | zero =>
    simp only [uint16s?, Option.some.injEq, Prod.mk.injEq] at read
    obtain ⟨rfl, rfl⟩ := read
    simp
  | succ count inductionHypothesis =>
    simp only [uint16s?] at read
    split at read
    · simp at read
    · rename_i word middle head
      split at read
      · simp at read
      · rename_i later final tail
        simp only [Option.some.injEq, Prod.mk.injEq] at read
        obtain ⟨rfl, rfl⟩ := read
        have taken := length_of_uint16? head
        have others := inductionHypothesis tail
        simp only [List.length_cons]
        omega

end RegexMachine.LittleEndian
