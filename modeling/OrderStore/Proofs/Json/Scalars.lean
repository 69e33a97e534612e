import OrderStore.Json.Schema
import OrderStore.Proofs.Json.Skip

/-!
# Strings and natural numbers are read back

A string may be spelt with any mixture of plain and escaped characters: reading gives the
characters that the spelling stands for. Plain decimal digits are read as the number they
stand for, as long as it is below the wanted limit and nothing that belongs to a number
follows; and every natural number is written in such digits.
-/

namespace OrderStore

namespace Json

variable {text rest : List Char} {n : Nat}

/-! ## Strings -/

namespace Quoted

variable {state next : State} {c e : Char} {characters : List Char}

theorem read_enter (h : move state c = .enter next) : read state (c :: text) = read next text := by
  rw [read, h]

theorem read_emit (h : move state c = .emit e) (hread : read .plain text = .ok (characters, rest)) :
    read state (c :: text) = .ok (e :: characters, rest) := by
  simp only [read, h, hread]

/-- The digits of an escape by number lead to its last one, which does what the whole number
does. -/
theorem read_unit {digits : List Char} (h : IsUnit digits n) (lead : Option Nat) :
    ∃ state c, move state c = unitMove lead n ∧
      ∀ text, read (.hex lead 4 0) (digits ++ text) = read state (c :: text) := by
  obtain @⟨a, b, c, d, p, q, r, s, ha, hb, hc, hd⟩ := h
  -- The reader has taken three digits and is in front of the last.
  refine ⟨.hex lead 1 (16 * (16 * p + q) + r), d, ?_, fun text => ?_⟩
  · simp only [move, hd, Nat.lt_irrefl, if_false]
  · have ha' : move (.hex lead 4 0) a = .enter (.hex lead 3 p) := by simp [move, ha]
    have hb' : move (.hex lead 3 p) b = .enter (.hex lead 2 (16 * p + q)) := by simp [move, hb]
    have hc' : move (.hex lead 2 (16 * p + q)) c =
        .enter (.hex lead 1 (16 * (16 * p + q) + r)) := by simp [move, hc]
    rw [List.cons_append, List.cons_append, List.cons_append, read_enter ha', read_enter hb',
      read_enter hc', List.singleton_append]

/-- A string is read as the characters that it spells. -/
theorem read_spells (h : Spells text characters) :
    read .plain (text ++ '"' :: rest) = .ok (characters, rest) := by
  induction h with
  | nil => rfl
  | plain plain _ ih =>
    obtain ⟨hquote, hbackslash, hcontrol⟩ := plain
    exact read_emit (by rw [move, if_neg hquote, if_neg hbackslash, if_neg hcontrol]) ih
  | letter escaped _ ih =>
    rw [List.cons_append, read_enter rfl]
    exact read_emit (by rw [move, escaped]) ih
  | @unit digits text characters n unit no_surrogate _ ih =>
    obtain ⟨state, c, hmove, hread⟩ := read_unit unit none
    have hunit : unitMove none n = .emit (Char.ofNat n) := by
      have hlead : isLead n = false := decide_eq_false (by omega)
      have htrail : isTrail n = false := decide_eq_false (by omega)
      simp [unitMove, hlead, htrail]
    rw [List.cons_append, List.cons_append, read_enter rfl, read_enter rfl, List.append_assoc,
      hread]
    exact read_emit (hmove.trans hunit) ih
  | @pair digits digits' text characters lead trail lead_unit is_lead trail_unit is_trail _ ih =>
    obtain ⟨state, c, hmove, hread⟩ := read_unit lead_unit none
    obtain ⟨state', c', hmove', hread'⟩ := read_unit trail_unit (some lead)
    have hlead : unitMove none lead = .enter (.afterLead lead) := by
      have hlead : isLead lead = true := decide_eq_true is_lead
      have htrail : isTrail lead = false := decide_eq_false (by omega)
      simp [unitMove, hlead, htrail]
    have htrail : unitMove (some lead) trail =
        .emit (Char.ofNat (0x10000 + (lead - 0xd800) * 0x400 + (trail - 0xdc00))) :=
      if_pos (decide_eq_true is_trail)
    rw [List.cons_append, List.cons_append, read_enter rfl, read_enter rfl, List.append_assoc,
      hread, read_enter (hmove.trans hlead), List.cons_append, List.cons_append, read_enter rfl,
      read_enter rfl, List.append_assoc, hread']
    exact read_emit (hmove'.trans htrail) ih

end Quoted

theorem readQuoted_spells {key : String} (h : Spells text key.toList) :
    readQuoted (text ++ '"' :: rest) = .ok (key, rest) := by
  rw [readQuoted, Quoted.read_spells h]
  simp only [String.ofList_toList]

/-- Characters that need no escape spell themselves. -/
theorem Spells.refl (h : ∀ c ∈ text, IsPlain c) : Spells text text := by
  induction text with
  | nil => exact .nil
  | cons c text ih =>
    exact .plain (h c List.mem_cons_self) (ih fun d hd => h d (List.mem_cons_of_mem _ hd))

/-! ## Natural numbers -/

/-- Blanks in front of something else are passed over. -/
theorem skipBlank_blanks {blanks : List Char} {c : Char} (hblanks : Blanks blanks)
    (hc : isBlank c = false) : skipBlank (blanks ++ c :: text) = c :: text := by
  rw [skipBlank, List.dropWhile_append_of_pos hblanks, List.dropWhile_cons_of_neg (by simp [hc])]

theorem isBlank_of_isDigit {c : Char} (h : isDigit c = true) : isBlank c = false := by
  rw [← Bool.not_eq_true]
  intro hblank
  rcases of_decide_eq_true hblank with rfl | rfl | rfl | rfl <;> simp [isDigit] at h

namespace Numeral

/-- Further digits never make a number smaller. -/
theorem le_foldl_digits (digits : List Char) (start : Nat) :
    start ≤ digits.foldl (fun n d => 10 * n + digitValue d) start := by
  induction digits generalizing start with
  | nil => exact Nat.le_refl start
  | cons d digits ih => exact Nat.le_trans (by omega) (ih (10 * start + digitValue d))

/-- Digits are taken over one and all as long as their value fits into a word. -/
theorem significand_of_lt {start : Nat} {digits : List Char}
    (h : digits.foldl (fun n d => 10 * n + digitValue d) start < UInt64.size) :
    significand start digits =
      (digits.foldl (fun n d => 10 * n + digitValue d) start, digits.length) := by
  induction digits generalizing start with
  | nil => rfl
  | cons d digits ih =>
    have hfits : ¬ UInt64.size ≤ 10 * start + digitValue d :=
      Nat.not_le_of_lt (Nat.lt_of_le_of_lt (le_foldl_digits digits _) h)
    simp only [significand, if_neg hfits, ih h, List.foldl_cons, List.length_cons]

/-- Integer digits with nothing that belongs to a number behind them are a natural number. -/
theorem readInteger_of_stops (hvalue : decimalValue text < UInt64.size) (hrest : Stops rest) :
    readInteger false text rest = .ok (.natural (decimalValue text), rest) := by
  rw [readInteger, significand_of_lt hvalue]
  cases rest with
  | nil => simp [decimalValue]
  | cons c rest =>
    obtain ⟨-, hpoint, he, hE⟩ := hrest.not_number
    simp [hpoint, he, hE, decimalValue]

theorem readUnsigned_isNatural (h : IsNatural text n) (hvalue : n < UInt64.size)
    (hrest : Stops rest) : readUnsigned false (text ++ rest) = .ok (.natural n, rest) := by
  obtain ⟨hinteger, rfl⟩ := h
  rw [← readInteger_of_stops hvalue hrest]
  cases hinteger with
  | zero =>
    cases rest with
    | nil => rfl
    | cons c rest => simp [readUnsigned, hrest.not_number]
  | @positive first digits first_isDigit first_ne rest_isDigit =>
    have hall : ∀ c ∈ first :: digits, isDigit c = true := fun c hc =>
      (List.mem_cons.mp hc).elim (fun h => h ▸ first_isDigit) (rest_isDigit c)
    have hend : rest.takeWhile isDigit = [] ∧ rest.dropWhile isDigit = rest := by
      cases rest with
      | nil => exact ⟨rfl, rfl⟩
      | cons c rest => simp [hrest.not_number.1]
    have htake : (first :: (digits ++ rest)).takeWhile isDigit = first :: digits := by
      rw [← List.cons_append, List.takeWhile_append_of_pos hall, hend.1, List.append_nil]
    have hdrop : (first :: (digits ++ rest)).dropWhile isDigit = rest := by
      rw [← List.cons_append, List.dropWhile_append_of_pos hall, hend.2]
    rw [List.cons_append]
    simp [readUnsigned, first_isDigit, htake, hdrop]

end Numeral

/-- Plain decimal digits are read as the number they stand for if it is below the limit. -/
theorem readNatural_isNatural {limit : Nat} {blanks : List Char} (hblanks : Blanks blanks)
    (h : IsNatural text n) (hlimit : n < limit) (hsize : limit ≤ UInt64.size)
    (hrest : Stops rest) : readNatural limit (blanks ++ (text ++ rest)) = .ok (n, rest) := by
  have hread := Numeral.readUnsigned_isNatural h (Nat.lt_of_lt_of_le hlimit hsize) hrest
  obtain ⟨c, more, rfl, hdigit⟩ : ∃ c more, text = c :: more ∧ isDigit c = true := by
    obtain ⟨hinteger, -⟩ := h
    cases hinteger with
    | zero => exact ⟨'0', [], rfl, rfl⟩
    | positive first_isDigit first_ne rest_isDigit => exact ⟨_, _, rfl, first_isDigit⟩
  have hsign : c ≠ '-' := by
    rintro rfl
    simp [isDigit] at hdigit
  rw [List.cons_append] at hread ⊢
  simp [readNatural, skipBlank_blanks hblanks (isBlank_of_isDigit hdigit), hdigit, readNumeral,
    hsign, hread, hlimit]

/-! ## Writing natural numbers -/

theorem decimalValue_concat {digits : List Char} {d : Char} :
    decimalValue (digits ++ [d]) = 10 * decimalValue digits + digitValue d := by
  rw [decimalValue, List.foldl_append]
  rfl

/-- One more digit behind a number other than zero. -/
theorem IsNatural.concat {digits : List Char} {d : Char} (h : IsNatural digits n) (hn : n ≠ 0)
    (hd : isDigit d = true) : IsNatural (digits ++ [d]) (10 * n + digitValue d) := by
  obtain ⟨hinteger, rfl⟩ := h
  refine ⟨?_, decimalValue_concat⟩
  cases hinteger with
  | zero => exact absurd rfl hn
  | positive first_isDigit first_ne rest_isDigit =>
    refine .positive first_isDigit first_ne fun c hc => ?_
    rcases List.mem_append.mp hc with hc | hc
    · exact rest_isDigit c hc
    · rw [List.mem_singleton.mp hc]
      exact hd

/-- A natural number is written in plain decimal digits. -/
theorem isNatural_toDigits (n : Nat) : IsNatural (Nat.toDigits 10 n) n := by
  induction n using Nat.strongRecOn with
  | ind n ih =>
    have hdigit : ∀ d < 10, isDigit d.digitChar = true ∧ digitValue d.digitChar = d := by decide
    by_cases hn : n < 10
    · rw [Nat.toDigits_of_lt_base hn]
      obtain ⟨hisDigit, hvalue⟩ := hdigit n hn
      refine ⟨?_, by simp [decimalValue, hvalue]⟩
      by_cases hzero : n.digitChar = '0'
      · exact hzero ▸ .zero
      · exact .positive hisDigit hzero fun c hc => absurd hc List.not_mem_nil
    · rw [Nat.toDigits_of_base_le (by decide) (by omega)]
      obtain ⟨hisDigit, hvalue⟩ := hdigit (n % 10) (by omega)
      have h := (ih (n / 10) (by omega)).concat (by omega) hisDigit
      rwa [hvalue, Nat.div_add_mod] at h

/-- A number as it is rendered. -/
theorem isNatural_repr (n : Nat) : IsNatural (Nat.repr n).toList n := by
  rw [Nat.toList_repr]
  exact isNatural_toDigits n

end Json

end OrderStore
