import OrderStore.Symbol

/-!
# Cut symbols

The search for a character boundary never goes past the byte it starts from, so
a cut symbol always fits into the field of a record. It stops at the last boundary
there is, so nothing longer would fit; and since no character has more than four
bytes, it takes at most three steps. Main statement: a cut symbol is the longest
prefix of whole characters that a record can hold.
-/

namespace OrderStore

/-- The boundary found lies at or before the byte at which the search starts. -/
theorem boundaryAtOrBefore_le (s : String) (offset : Nat) :
    (boundaryAtOrBefore s offset).offset.byteIdx ≤ offset := by
  induction offset with
  | zero => simp [boundaryAtOrBefore]
  | succ offset ih =>
    rw [boundaryAtOrBefore]
    split
    · exact Nat.le_refl _
    · omega

section Boundary

variable {s : String} {offset : Nat}

/-- No boundary up to `offset` lies behind the one that the search finds. -/
theorem le_boundaryAtOrBefore {boundary : Nat} (hvalid : String.Pos.Raw.IsValid s ⟨boundary⟩)
    (hle : boundary ≤ offset) : boundary ≤ (boundaryAtOrBefore s offset).offset.byteIdx := by
  induction offset with
  | zero => omega
  | succ offset ih =>
    rw [boundaryAtOrBefore]
    split
    · exact hle
    · next hinvalid =>
      have hne : boundary ≠ offset + 1 := fun heq => hinvalid (heq ▸ hvalid)
      exact ih (by omega)

/-- At a boundary the search is over. -/
theorem byteIdx_boundaryAtOrBefore (hvalid : String.Pos.Raw.IsValid s ⟨offset⟩) :
    (boundaryAtOrBefore s offset).offset.byteIdx = offset :=
  Nat.le_antisymm (boundaryAtOrBefore_le s offset) (le_boundaryAtOrBefore hvalid (Nat.le_refl _))

/-- Within a character it goes on one byte before. -/
theorem boundaryAtOrBefore_pred (hinvalid : ¬String.Pos.Raw.IsValid s ⟨offset⟩) :
    boundaryAtOrBefore s offset = boundaryAtOrBefore s (offset - 1) := by
  cases offset with
  | zero => rfl
  | succ offset => rw [boundaryAtOrBefore, dif_neg hinvalid, Nat.add_sub_cancel]

end Boundary

/-- The search as a loop that gives up after `steps` steps back. It answers the byte at
which it has stopped. -/
def searchBack? (s : String) : (steps offset : Nat) → Option Nat
  | 0, offset => if String.Pos.Raw.IsValid s ⟨offset⟩ then some offset else none
  | steps + 1, offset =>
    if String.Pos.Raw.IsValid s ⟨offset⟩ then some offset else searchBack? s steps (offset - 1)

/-- The loop finds a boundary that is no more than `steps` bytes away. -/
theorem searchBack?_eq {s : String} {steps offset : Nat}
    (h : offset ≤ (boundaryAtOrBefore s offset).offset.byteIdx + steps) :
    searchBack? s steps offset = some (boundaryAtOrBefore s offset).offset.byteIdx := by
  induction steps generalizing offset with
  | zero =>
    have hle := boundaryAtOrBefore_le s offset
    have hoffset : (boundaryAtOrBefore s offset).offset.byteIdx = offset := by omega
    have hvalid : String.Pos.Raw.IsValid s ⟨offset⟩ :=
      hoffset ▸ (boundaryAtOrBefore s offset).isValid
    rw [searchBack?, if_pos hvalid, hoffset]
  | succ steps ih =>
    rw [searchBack?]
    split
    · next hvalid => rw [byteIdx_boundaryAtOrBefore hvalid]
    · next hinvalid =>
      rw [boundaryAtOrBefore_pred hinvalid] at h ⊢
      exact ih (by omega)

/-- The text before a boundary has as many bytes as the boundary's offset. -/
theorem utf8ByteSize_extract_startPos (s : String) (p : s.Pos) :
    (s.extract s.startPos p).utf8ByteSize = p.offset.byteIdx := by
  have hle : p.offset.byteIdx ≤ s.utf8ByteSize := p.isValid.le_utf8ByteSize
  rw [← String.size_toByteArray, String.toByteArray_extract, ByteArray.size_extract,
    String.size_toByteArray]
  simp only [String.offset_startPos, String.Pos.Raw.byteIdx_zero]
  omega

/-- A boundary splits a text into what stands before it and what stands behind it. -/
theorem splits_extract_startPos (s : String) (p : s.Pos) :
    p.Splits (s.extract s.startPos p) (s.sliceFrom p).copy := by
  have hbefore : (s.sliceTo p).copy = s.extract s.startPos p := by
    rw [← String.toByteArray_inj, String.toByteArray_extract, p.splits.toByteArray_left_eq]
    rfl
  exact hbefore ▸ p.splits

/-- The character behind the boundary that is found ends behind `offset`. -/
theorem exists_next_char {s : String} {offset : Nat} (hlong : offset < s.utf8ByteSize) :
    ∃ c rest, s = s.extract s.startPos (boundaryAtOrBefore s offset) ++ .singleton c ++ rest ∧
      offset < (boundaryAtOrBefore s offset).offset.byteIdx + c.utf8Size := by
  have hle := boundaryAtOrBefore_le s offset
  have hmax (p : s.Pos) (hp : p.offset.byteIdx ≤ offset) :
      p.offset.byteIdx ≤ (boundaryAtOrBefore s offset).offset.byteIdx :=
    le_boundaryAtOrBefore p.isValid hp
  generalize boundaryAtOrBefore s offset = p at *
  have hend : p ≠ s.endPos := by
    rintro rfl
    rw [String.offset_endPos, String.byteIdx_rawEndPos] at hle
    omega
  refine ⟨p.get hend, (s.sliceFrom (p.next hend)).copy, ?_, ?_⟩
  · have hsplits := p.splits_next_right hend
    rw [(splits_extract_startPos s p).eq_left hsplits, String.append_assoc]
    exact hsplits.eq_append
  · -- the end of that character is a boundary too, so it cannot be within reach
    have hnext := p.byteIdx_offset_next hend
    have hpos := (p.get hend).utf8Size_pos
    have hbehind := hmax (p.next hend)
    omega

/-- A cut symbol fits into the symbol field. -/
theorem utf8ByteSize_truncateSymbol_le (s : String) :
    (truncateSymbol s).utf8ByteSize ≤ symbolCapacity := by
  rw [truncateSymbol]
  split
  · assumption
  · rw [utf8ByteSize_extract_startPos]
    exact boundaryAtOrBefore_le s symbolCapacity

/-- Exactly the symbols that fit are not cut. -/
theorem truncateSymbol_eq_self_iff (s : String) :
    truncateSymbol s = s ↔ s.utf8ByteSize ≤ symbolCapacity := by
  constructor
  · intro hsame
    rw [← hsame]
    exact utf8ByteSize_truncateSymbol_le s
  · intro hfits
    rw [truncateSymbol, if_pos hfits]

/-- A cut symbol is not cut again. -/
theorem truncateSymbol_truncateSymbol (s : String) :
    truncateSymbol (truncateSymbol s) = truncateSymbol s :=
  (truncateSymbol_eq_self_iff _).mpr (utf8ByteSize_truncateSymbol_le s)

theorem truncateSymbol_of_long {s : String} (hlong : symbolCapacity < s.utf8ByteSize) :
    truncateSymbol s = s.extract s.startPos (boundaryAtOrBefore s symbolCapacity) := by
  rw [truncateSymbol, if_neg (Nat.not_le.mpr hlong)]

/-- A cut symbol is a prefix of the symbol. -/
theorem exists_eq_truncateSymbol_append (s : String) : ∃ rest, s = truncateSymbol s ++ rest := by
  rcases Nat.lt_or_ge symbolCapacity s.utf8ByteSize with hlong | hfits
  · rw [truncateSymbol_of_long hlong]
    exact ⟨_, (splits_extract_startPos s _).eq_append⟩
  · rw [truncateSymbol, if_pos hfits]
    exact ⟨"", String.append_empty.symm⟩

theorem exists_eq_append_of_prefix {text other : String} (h : text.toList <+: other.toList) :
    ∃ more, other = text ++ more := by
  obtain ⟨more, hmore⟩ := h
  refine ⟨.ofList more, ?_⟩
  rw [← String.toList_inj, String.toList_append, String.toList_ofList, hmore]

/-- Of two prefixes of one text the one with fewer bytes is a prefix of the other. -/
theorem exists_eq_append_of_le {text other rest rest' : String} (h : text ++ rest = other ++ rest')
    (hle : text.utf8ByteSize ≤ other.utf8ByteSize) : ∃ more, other = text ++ more := by
  have hlists : text.toList ++ rest.toList = other.toList ++ rest'.toList := by
    rw [← String.toList_append, h, String.toList_append]
  rcases List.prefix_or_prefix_of_prefix (List.prefix_append text.toList rest.toList)
    (hlists ▸ List.prefix_append other.toList rest'.toList) with hprefix | hprefix
  · exact exists_eq_append_of_prefix hprefix
  · obtain ⟨more, rfl⟩ := exists_eq_append_of_prefix hprefix
    rw [String.utf8ByteSize_append] at hle
    have hempty : more = "" := String.utf8ByteSize_eq_zero_iff.mp (by omega)
    exact ⟨"", by rw [hempty, String.append_empty, String.append_empty]⟩

/-- No prefix that fits is longer than the cut symbol. -/
theorem exists_truncateSymbol_eq_append {s text rest : String} (hs : s = text ++ rest)
    (hfits : text.utf8ByteSize ≤ symbolCapacity) : ∃ more, truncateSymbol s = text ++ more := by
  rcases Nat.lt_or_ge symbolCapacity s.utf8ByteSize with hlong | hshort
  · obtain ⟨behind, hbehind⟩ := exists_eq_truncateSymbol_append s
    have hvalid : String.Pos.Raw.IsValid s ⟨text.utf8ByteSize⟩ :=
      String.Pos.Raw.isValid_iff_exists_append.mpr ⟨text, rest, hs, rfl⟩
    refine exists_eq_append_of_le (hs.symm.trans hbehind) ?_
    rw [truncateSymbol_of_long hlong, utf8ByteSize_extract_startPos]
    exact le_boundaryAtOrBefore hvalid hfits
  · exact ⟨rest, by rw [truncateSymbol, if_pos hshort, hs]⟩

/-- The cut symbol is the longest prefix of whole characters that has at most 31 bytes: a
symbol that has no more is kept, and of a longer one the next character does not fit any
more. As a character has at most four bytes, at least 28 are left, and the search has
found its boundary after at most three steps back from byte 31. -/
theorem truncateSymbol_longest_prefix (s : String) :
    (∃ rest, s = truncateSymbol s ++ rest) ∧ (truncateSymbol s).utf8ByteSize ≤ 31 ∧
      (∀ text rest, s = text ++ rest → text.utf8ByteSize ≤ 31 →
        ∃ more, truncateSymbol s = text ++ more) ∧
      (s.utf8ByteSize ≤ 31 → truncateSymbol s = s) ∧
      (31 < s.utf8ByteSize →
        (∃ c rest, s = truncateSymbol s ++ .singleton c ++ rest ∧
          31 < (truncateSymbol s).utf8ByteSize + c.utf8Size) ∧
        28 ≤ (truncateSymbol s).utf8ByteSize ∧
        searchBack? s 3 31 = some (truncateSymbol s).utf8ByteSize) ∧
      truncateSymbol (truncateSymbol s) = truncateSymbol s := by
  refine ⟨exists_eq_truncateSymbol_append s, utf8ByteSize_truncateSymbol_le s,
    fun text rest => exists_truncateSymbol_eq_append, (truncateSymbol_eq_self_iff s).mpr,
    fun hlong => ?_, truncateSymbol_truncateSymbol s⟩
  have htruncated := truncateSymbol_of_long hlong
  have hsize : (truncateSymbol s).utf8ByteSize = (boundaryAtOrBefore s 31).offset.byteIdx := by
    rw [htruncated, utf8ByteSize_extract_startPos, symbolCapacity]
  obtain ⟨c, rest, hs, hnext⟩ := exists_next_char hlong
  have hfour := c.utf8Size_le_four
  refine ⟨⟨c, rest, ?_, ?_⟩, ?_, ?_⟩
  · rw [htruncated, symbolCapacity]
    exact hs
  · rw [hsize]
    exact hnext
  · omega
  · rw [hsize]
    exact searchBack?_eq (by omega)

/-- Of 28 letters and a character of four bytes only the letters are left. -/
theorem truncateSymbol_longest_prefix_letters :
    31 < ("ABCDEFGHIJKLMNOPQRSTUVWXYZAB" ++ "😀").utf8ByteSize ∧
      "ABCDEFGHIJKLMNOPQRSTUVWXYZAB".utf8ByteSize ≤ 31 ∧
      (∃ more, truncateSymbol ("ABCDEFGHIJKLMNOPQRSTUVWXYZAB" ++ "😀") =
        "ABCDEFGHIJKLMNOPQRSTUVWXYZAB" ++ more) ∧
      searchBack? ("ABCDEFGHIJKLMNOPQRSTUVWXYZAB" ++ "😀") 3 31 = some 28 := by
  have hlong : 31 < ("ABCDEFGHIJKLMNOPQRSTUVWXYZAB" ++ "😀").utf8ByteSize := by decide +kernel
  have hletters : "ABCDEFGHIJKLMNOPQRSTUVWXYZAB".utf8ByteSize ≤ 31 := by decide +kernel
  obtain ⟨-, -, hlongest, -, hcut, -⟩ :=
    truncateSymbol_longest_prefix ("ABCDEFGHIJKLMNOPQRSTUVWXYZAB" ++ "😀")
  have hsize : (truncateSymbol ("ABCDEFGHIJKLMNOPQRSTUVWXYZAB" ++ "😀")).utf8ByteSize = 28 := by
    decide +kernel
  refine ⟨hlong, hletters, hlongest _ _ rfl hletters, ?_⟩
  rw [(hcut hlong).2.2, hsize]

end OrderStore
