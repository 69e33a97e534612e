/-!
# Well-formed UTF-8

Which bytes are a text: those of characters one behind the other. The first byte of
a character tells by its high bits how many follow, each of which carries six more
bits of the code point. Each code point has one form, the shortest; a surrogate has
none, and neither has a number above U+10FFFF. Main statement: these are the bytes
that can be read as a string.
-/

namespace OrderStore.Utf8

/-- A byte that continues a character. -/
def Continues (byte : UInt8) : Prop := 0x80 ≤ byte.toNat ∧ byte.toNat < 0xC0

/-- The code point that two bytes stand for. -/
def pointOfTwo (a b : UInt8) : Nat := a.toNat % 32 * 64 + b.toNat % 64

/-- The code point that three bytes stand for. -/
def pointOfThree (a b c : UInt8) : Nat :=
  a.toNat % 16 * 4096 + b.toNat % 64 * 64 + c.toNat % 64

/-- The code point that four bytes stand for. -/
def pointOfFour (a b c d : UInt8) : Nat :=
  a.toNat % 8 * 262144 + b.toNat % 64 * 4096 + c.toNat % 64 * 64 + d.toNat % 64

/-- The bytes of one character. -/
inductive IsCharacter : List UInt8 → Prop
  /-- A code point of seven bits. -/
  | one {a : UInt8} (lead : a.toNat < 0x80) : IsCharacter [a]
  /-- A code point of eight to eleven bits. -/
  | two {a b : UInt8} (lead : 0xC0 ≤ a.toNat ∧ a.toNat < 0xE0) (tail : Continues b)
      (shortest : 0x80 ≤ pointOfTwo a b) : IsCharacter [a, b]
  /-- A code point of twelve to sixteen bits. -/
  | three {a b c : UInt8} (lead : 0xE0 ≤ a.toNat ∧ a.toNat < 0xF0)
      (tail : Continues b ∧ Continues c) (shortest : 0x800 ≤ pointOfThree a b c)
      (no_surrogate : ¬ (0xD800 ≤ pointOfThree a b c ∧ pointOfThree a b c ≤ 0xDFFF)) :
      IsCharacter [a, b, c]
  /-- A code point of more bits. -/
  | four {a b c d : UInt8} (lead : 0xF0 ≤ a.toNat ∧ a.toNat < 0xF8)
      (tail : Continues b ∧ Continues c ∧ Continues d) (shortest : 0x10000 ≤ pointOfFour a b c d)
      (in_range : pointOfFour a b c d ≤ 0x10FFFF) : IsCharacter [a, b, c, d]

/-- The bytes of a text are those of its characters, one behind the other. -/
def WellFormed (bytes : List UInt8) : Prop :=
  ∃ characters : List (List UInt8), bytes = characters.flatten ∧
    ∀ character ∈ characters, IsCharacter character

/-- The bytes of every character have the form of one. -/
theorem isCharacter_encode (c : Char) : IsCharacter (String.utf8EncodeChar c) := by
  have hvalid : c.val.toNat < 0xD800 ∨ 0xDFFF < c.val.toNat ∧ c.val.toNat < 0x110000 := c.valid
  unfold String.utf8EncodeChar
  generalize c.val.toNat = n at hvalid
  dsimp only
  split
  · apply IsCharacter.one
    rw [UInt8.toNat_ofNat']
    omega
  · split
    · apply IsCharacter.two <;> simp only [Continues, pointOfTwo, UInt8.toNat_ofNat'] <;> omega
    · split
      · apply IsCharacter.three <;>
          simp only [Continues, pointOfThree, UInt8.toNat_ofNat'] <;> omega
      · apply IsCharacter.four <;> simp only [Continues, pointOfFour, UInt8.toNat_ofNat'] <;> omega

/-- A code point in range that is no surrogate is that of a character. -/
theorem exists_char {n : Nat} (h : n < 0xD800 ∨ 0xDFFF < n ∧ n < 0x110000) :
    ∃ c : Char, c.val.toNat = n := by
  have hword : (UInt32.ofNat n).toNat = n := by
    rw [UInt32.toNat_ofNat']
    omega
  have hvalid : (UInt32.ofNat n).isValidChar := by
    unfold UInt32.isValidChar
    rwa [hword]
  exact ⟨⟨UInt32.ofNat n, hvalid⟩, hword⟩

theorem ofNat_eq_of_toNat (byte : UInt8) {n : Nat} (h : byte.toNat = n % 256) :
    UInt8.ofNat n = byte := by
  apply UInt8.toNat_inj.mp
  rw [UInt8.toNat_ofNat', h]

/-- Bytes that have the form of a character are those of one. -/
theorem exists_encode {bytes : List UInt8} (h : IsCharacter bytes) :
    ∃ c : Char, String.utf8EncodeChar c = bytes := by
  unfold String.utf8EncodeChar
  dsimp only
  cases h with
  | @one a hlead =>
    obtain ⟨char, hchar⟩ := exists_char (n := a.toNat) (by omega)
    refine ⟨char, ?_⟩
    rw [hchar, if_pos (by omega), UInt8.ofNat_toNat]
  | @two a b hlead htail hshortest =>
    unfold Continues at htail
    unfold pointOfTwo at hshortest
    obtain ⟨char, hchar⟩ := exists_char (n := pointOfTwo a b) (by unfold pointOfTwo; omega)
    refine ⟨char, ?_⟩
    unfold pointOfTwo at hchar
    rw [hchar, if_neg (by omega), if_pos (by omega), ofNat_eq_of_toNat a (by omega),
      ofNat_eq_of_toNat b (by omega)]
  | @three a b c hlead htail hshortest hsurrogate =>
    unfold Continues at htail
    unfold pointOfThree at hshortest hsurrogate
    obtain ⟨char, hchar⟩ := exists_char (n := pointOfThree a b c) (by unfold pointOfThree; omega)
    refine ⟨char, ?_⟩
    unfold pointOfThree at hchar
    rw [hchar, if_neg (by omega), if_neg (by omega), if_pos (by omega),
      ofNat_eq_of_toNat a (by omega), ofNat_eq_of_toNat b (by omega),
      ofNat_eq_of_toNat c (by omega)]
  | @four a b c d hlead htail hshortest hrange =>
    unfold Continues at htail
    unfold pointOfFour at hshortest hrange
    obtain ⟨char, hchar⟩ := exists_char (n := pointOfFour a b c d) (by unfold pointOfFour; omega)
    refine ⟨char, ?_⟩
    unfold pointOfFour at hchar
    rw [hchar, if_neg (by omega), if_neg (by omega), if_neg (by omega),
      ofNat_eq_of_toNat a (by omega), ofNat_eq_of_toNat b (by omega),
      ofNat_eq_of_toNat c (by omega), ofNat_eq_of_toNat d (by omega)]

/-- Texts are encoded character by character. -/
theorem exists_text {characters : List (List UInt8)} (h : ∀ bytes ∈ characters, IsCharacter bytes) :
    ∃ text : List Char, text.flatMap String.utf8EncodeChar = characters.flatten := by
  induction characters with
  | nil => exact ⟨[], rfl⟩
  | cons bytes characters ih =>
    obtain ⟨c, hc⟩ := exists_encode (h bytes List.mem_cons_self)
    obtain ⟨text, htext⟩ := ih fun other hother => h other (List.mem_cons_of_mem _ hother)
    exact ⟨c :: text, by rw [List.flatMap_cons, hc, htext, List.flatten_cons]⟩

/-- Bytes can be read as a string exactly if they are well-formed. -/
theorem isValidUTF8_iff (bytes : List UInt8) :
    ByteArray.IsValidUTF8 ⟨bytes.toArray⟩ ↔ WellFormed bytes := by
  have hencode (text : List Char) : text.utf8Encode = ⟨bytes.toArray⟩ ↔
      text.flatMap String.utf8EncodeChar = bytes := by
    have hdata : (⟨bytes.toArray⟩ : ByteArray) = bytes.toByteArray :=
      ByteArray.ext List.data_toByteArray.symm
    rw [List.utf8Encode, hdata, List.toByteArray_inj]
  constructor
  · rintro ⟨text, htext⟩
    refine ⟨text.map String.utf8EncodeChar, ?_, ?_⟩
    · rw [← List.flatMap_def, (hencode text).mp htext.symm]
    · intro bytes hbytes
      obtain ⟨c, -, rfl⟩ := List.mem_map.mp hbytes
      exact isCharacter_encode c
  · rintro ⟨characters, hbytes, hcharacters⟩
    obtain ⟨text, htext⟩ := exists_text hcharacters
    exact ⟨text, ((hencode text).mpr (htext.trans hbytes.symm)).symm⟩

instance (bytes : List UInt8) : Decidable (WellFormed bytes) :=
  decidable_of_iff _ (isValidUTF8_iff bytes)

end OrderStore.Utf8
