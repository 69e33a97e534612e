import OrderStore.Json.Skip
import OrderStore.Proofs.Json.Grammar

/-!
# Every well-formed value is skipped

The checker that skips values sees one character at a time and knows the open brackets.
Whatever brackets are open around a value, the checker comes out behind it as if it had
never been there: by induction on the grammar, with one statement for each part of a
text. Sizes of numbers, spellings of strings and depths of nesting do not matter.
-/

namespace OrderStore

namespace Json

/-- A text may end where blanks and something that ends it follow. -/
theorem Stops.blanks {blanks rest : List Char} (hblanks : Blanks blanks) (h : Stops rest) :
    Stops (blanks ++ rest) := by
  cases blanks with
  | nil => exact h
  | cons c blanks => exact .inl (hblanks c List.mem_cons_self)

theorem Stops.comma {rest : List Char} : Stops (',' :: rest) := .inr (.inl rfl)

theorem Stops.bracket {rest : List Char} : Stops (']' :: rest) := .inr (.inr (.inl rfl))

theorem Stops.brace {rest : List Char} : Stops ('\x7d' :: rest) := .inr (.inr (.inr rfl))

/-- No number goes on behind its end. -/
theorem Stops.not_number {c : Char} {rest : List Char} (h : Stops (c :: rest)) :
    isDigit c = false ∧ c ≠ '.' ∧ c ≠ 'e' ∧ c ≠ 'E' := by
  rcases h with h | rfl | rfl | rfl
  · rcases of_decide_eq_true h with rfl | rfl | rfl | rfl <;> decide
  all_goals decide

namespace Skip

/-- What the checker makes of the rest of a text behind a complete value. -/
def behind : (brackets : List Bracket) → (rest : List Char) → Except Fault (List Char)
  | [], rest => .ok rest
  | bracket :: outer, rest => run .afterValue (bracket :: outer) rest

variable {state next : State} {brackets outer : List Bracket} {bracket : Bracket}
  {isKey : Bool} {c : Char} {text rest : List Char}

/-! ## Single steps -/

theorem run_enter (h : move state brackets c = .enter next outer) :
    run state brackets (c :: text) = run next outer text := by
  rw [run, h]

theorem run_complete (h : move state brackets c = complete outer) :
    run state brackets (c :: text) = behind outer text := by
  rw [run, h]
  cases outer <;> rfl

/-- Characters that lead nowhere are passed over. -/
theorem run_stay {text : List Char}
    (h : ∀ c ∈ text, move state brackets c = .enter state brackets) :
    run state brackets (text ++ rest) = run state brackets rest := by
  induction text with
  | nil => rfl
  | cons c text ih =>
    rw [List.cons_append, run_enter (h c List.mem_cons_self)]
    exact ih fun d hd => h d (List.mem_cons_of_mem _ hd)

/-- The states in which a value starts. -/
def StartsValue (state : State) : Prop := state = .value ∨ state = .firstItem

/-- The states in which a key starts. -/
def StartsKey (state : State) : Prop := state = .key ∨ state = .firstKey

/-- What is no first character of a value, a blank or a closing bracket say, is refused as
one. -/
theorem run_start (hstate : StartsValue state) (h : startValue c brackets = .enter next outer) :
    run state brackets (c :: text) = run next outer text := by
  have hblank : isBlank c = false := by
    rw [← Bool.not_eq_true]
    intro hblank
    rcases of_decide_eq_true hblank with rfl | rfl | rfl | rfl <;> simp [startValue, isDigit] at h
  have hclosing : c ≠ ']' := by
    rintro rfl
    simp [startValue, isDigit] at h
  rcases hstate with rfl | rfl <;> exact run_enter (by simp [move, hblank, hclosing, h])

theorem run_valueBlanks (hstate : StartsValue state) {blanks : List Char} (h : Blanks blanks) :
    run state brackets (blanks ++ rest) = run state brackets rest := by
  refine run_stay fun c hc => ?_
  have hblank : isBlank c = true := h c hc
  rcases hstate with rfl | rfl <;> simp only [move, hblank, if_true]

theorem run_keyBlanks (hstate : StartsKey state) {blanks : List Char} (h : Blanks blanks) :
    run state brackets (blanks ++ rest) = run state brackets rest := by
  refine run_stay fun c hc => ?_
  have hblank : isBlank c = true := h c hc
  rcases hstate with rfl | rfl <;> simp only [move, hblank, if_true]

theorem run_colonBlanks {blanks : List Char} (h : Blanks blanks) :
    run .colon brackets (blanks ++ rest) = run .colon brackets rest :=
  run_stay fun c hc => by simp only [move, h c hc, if_true]

theorem run_blanksBehind {blanks : List Char} (h : Blanks blanks) :
    run .afterValue (bracket :: outer) (blanks ++ rest) =
      run .afterValue (bracket :: outer) rest :=
  run_stay fun c hc => by cases bracket <;> simp only [move, afterValue, h c hc, if_true]

/-! ## Words -/

theorem run_word {w : Char} {word : List Char} :
    run (.word (w :: word)) brackets (w :: (word ++ rest)) = behind brackets rest := by
  induction word generalizing w with
  | nil => exact run_complete (by rw [move, if_pos rfl])
  | cons w' word ih => rw [run_enter (by rw [move, if_pos rfl]; simp), List.cons_append, ih]

/-! ## Strings -/

/-- Every escape by letter that stands for something may stand in a string. -/
theorem move_escape {letter : Char} (h : Quoted.escaped? letter = some c) :
    move (.escape isKey) brackets letter = .enter (.quoted isKey) brackets := by
  have hmem : letter ∈ ['"', '\\', '/', 'b', 'f', 'n', 'r', 't'] := by
    unfold Quoted.escaped? at h
    split at h
    case h_9 => cases h
    all_goals simp
  have hne : letter ≠ 'u' := by
    rintro rfl
    simp at hmem
  rw [move, if_neg hne, if_pos hmem]

theorem run_unit {digits : List Char} {n : Nat} (h : IsUnit digits n) :
    run (.hex isKey 4) brackets (digits ++ text) = run (.quoted isKey) brackets text := by
  obtain ⟨ha, hb, hc, hd⟩ := h
  simp [run, move, ha, hb, hc, hd]

/-- The characters of a string change nothing until its closing quote. -/
theorem run_body {body : List Char} (h : IsBody body) :
    run (.quoted isKey) brackets (body ++ text) = run (.quoted isKey) brackets text := by
  induction h with
  | nil => rfl
  | plain plain _ ih =>
    obtain ⟨hquote, hbackslash, hcontrol⟩ := plain
    rw [List.cons_append, run_enter (by rw [move, if_neg hquote, if_neg hbackslash,
      if_neg hcontrol]), ih]
  | letter escaped _ ih =>
    rw [List.cons_append, List.cons_append, run_enter rfl, run_enter (move_escape escaped), ih]
  | unit unit _ ih =>
    rw [List.cons_append, List.cons_append, run_enter rfl, run_enter rfl, List.append_assoc,
      run_unit unit, ih]

/-! ## Numbers -/

/-- Behind the digits of a number whatever ends it is seen as behind any other value. -/
theorem run_behindNumber (hstate : state = .zero ∨ state = .digits ∨ state = .fraction ∨
    state = .exponent) (h : Stops rest) : run state brackets rest = behind brackets rest := by
  cases rest with
  | nil => rcases hstate with rfl | rfl | rfl | rfl <;> cases brackets <;> rfl
  | cons c rest =>
    obtain ⟨hdigit, hpoint, he, hE⟩ := h.not_number
    have hmove : move state brackets c = afterValue c brackets := by
      rcases hstate with rfl | rfl | rfl | rfl <;>
        simp [move, afterInteger, hdigit, hpoint, he, hE]
    have hwanted : state.wanted = 0 := by rcases hstate with rfl | rfl | rfl | rfl <;> rfl
    cases brackets with
    | nil => rw [run, hmove]; rfl
    | cons bracket outer => rw [behind, run, run, hmove, hwanted]; rfl

/-- Digits behind a first one stay in the state that the first one led to. -/
theorem run_digits (hstate : state = .digits ∨ state = .fraction ∨ state = .exponent)
    {digits : List Char} (h : ∀ c ∈ digits, isDigit c = true) :
    run state brackets (digits ++ rest) = run state brackets rest := by
  refine run_stay fun c hc => ?_
  have hdigit : isDigit c = true := h c hc
  rcases hstate with rfl | rfl | rfl <;> simp only [move, hdigit, if_true]

/-- An exponent has its first digit behind the mark or behind a sign. -/
theorem run_mark {sign : List Char} {d : Char} (hsign : sign ∈ [[], ['+'], ['-']])
    (hd : isDigit d = true) :
    run .mark brackets (sign ++ d :: text) = run .exponent brackets text := by
  have hfirst : d ≠ '+' ∧ d ≠ '-' := by
    constructor <;> rintro rfl <;> simp [isDigit] at hd
  simp only [List.mem_cons, List.not_mem_nil, or_false] at hsign
  rcases hsign with rfl | rfl | rfl
  · exact run_enter (by simp [move, hd, hfirst])
  all_goals
    rw [List.singleton_append, run_enter rfl]
    exact run_enter (by simp [move, hd])

theorem run_exponent (hstate : state = .zero ∨ state = .digits ∨ state = .fraction)
    {exponent : List Char} (h : IsExponent exponent) (hrest : Stops rest) :
    run state brackets (exponent ++ rest) = behind brackets rest := by
  cases h with
  | absent => exact run_behindNumber (hstate.imp_right fun h => h.imp_right .inl) hrest
  | @present mark sign digits mark_mem sign_mem digits_isDigit =>
    obtain ⟨hne, hdigits⟩ := digits_isDigit
    obtain ⟨d, digits, rfl⟩ := List.exists_cons_of_ne_nil hne
    have hmark : mark = 'e' ∨ mark = 'E' := by simpa using mark_mem
    have hmove : move state brackets mark = .enter .mark brackets := by
      rcases hmark with rfl | rfl <;> rcases hstate with rfl | rfl | rfl <;> rfl
    rw [List.cons_append, List.append_assoc, run_enter hmove, List.cons_append,
      run_mark sign_mem (hdigits d List.mem_cons_self),
      run_digits (.inr (.inr rfl)) fun c hc => hdigits c (List.mem_cons_of_mem _ hc)]
    exact run_behindNumber (.inr (.inr (.inr rfl))) hrest

theorem run_fraction (hstate : state = .zero ∨ state = .digits) {fraction exponent : List Char}
    (hfraction : IsFraction fraction) (hexponent : IsExponent exponent) (hrest : Stops rest) :
    run state brackets (fraction ++ (exponent ++ rest)) = behind brackets rest := by
  cases hfraction with
  | absent => exact run_exponent (hstate.imp_right .inl) hexponent hrest
  | @present digits digits_isDigit =>
    obtain ⟨hne, hdigits⟩ := digits_isDigit
    obtain ⟨d, digits, rfl⟩ := List.exists_cons_of_ne_nil hne
    have hpoint : move state brackets '.' = .enter .point brackets := by
      rcases hstate with rfl | rfl <;> rfl
    have hd : move .point brackets d = .enter .fraction brackets := by
      rw [move, if_pos (hdigits d List.mem_cons_self)]
    rw [List.cons_append, run_enter hpoint, List.cons_append, run_enter hd,
      run_digits (.inr (.inl rfl)) fun c hc => hdigits c (List.mem_cons_of_mem _ hc)]
    exact run_exponent (.inr (.inr rfl)) hexponent hrest

/-- The integer digits of a number start as its value does, or come behind a minus sign. -/
theorem run_integer (hstate : StartsValue state ∨ state = .minus) {integer : List Char}
    (h : IsInteger integer) :
    ∃ next, (next = .zero ∨ next = .digits) ∧ ∀ brackets rest,
      run state brackets (integer ++ rest) = run next brackets rest := by
  cases h with
  | zero =>
    refine ⟨.zero, .inl rfl, fun brackets rest => ?_⟩
    rcases hstate with hstate | rfl
    · exact run_start hstate rfl
    · exact run_enter rfl
  | @positive first digits first_isDigit first_ne rest_isDigit =>
    refine ⟨.digits, .inr rfl, fun brackets rest => ?_⟩
    have hfirst : first ≠ '"' ∧ first ≠ '[' ∧ first ≠ '\x7b' ∧ first ≠ 'n' ∧ first ≠ 't' ∧
        first ≠ 'f' ∧ first ≠ '-' := by
      refine ⟨?_, ?_, ?_, ?_, ?_, ?_, ?_⟩ <;> rintro rfl <;> simp [isDigit] at first_isDigit
    have hstart : startValue first brackets = .enter .digits brackets := by
      simp [startValue, hfirst, first_ne, first_isDigit]
    rw [List.cons_append, ← run_digits (.inl rfl) rest_isDigit]
    rcases hstate with hstate | rfl
    · exact run_start hstate hstart
    · exact run_enter (by rw [move, if_neg first_ne, if_pos first_isDigit])

theorem run_number (hstate : StartsValue state) {number : List Char} (h : IsNumber number)
    (hrest : Stops rest) : run state brackets (number ++ rest) = behind brackets rest := by
  obtain @⟨sign, integer, fraction, exponent, sign_mem, integer_isInteger,
    fraction_isFraction, exponent_isExponent⟩ := h
  have hsign : sign = [] ∨ sign = ['-'] := by simpa using sign_mem
  simp only [List.append_assoc]
  rcases hsign with rfl | rfl
  · obtain ⟨next, hnext, hrun⟩ := run_integer (.inl hstate) integer_isInteger
    rw [List.nil_append, hrun]
    exact run_fraction hnext fraction_isFraction exponent_isExponent hrest
  · obtain ⟨next, hnext, hrun⟩ := run_integer (.inr rfl) integer_isInteger
    rw [List.singleton_append, run_start hstate rfl, hrun]
    exact run_fraction hnext fraction_isFraction exponent_isExponent hrest

/-! ## Values -/

/-- What it means for a part of a text to be skipped, in whichever state it may start and
with whichever brackets around it. -/
def Skips : Part → List Char → Prop
  | .value, text => ∀ {state brackets rest}, StartsValue state → Stops rest →
      run state brackets (text ++ rest) = behind brackets rest
  | .item, text => ∀ {state bracket outer rest}, StartsValue state → Stops rest →
      run state (bracket :: outer) (text ++ rest) = run .afterValue (bracket :: outer) rest
  | .items, text => ∀ {state outer rest}, StartsValue state →
      run state (.array :: outer) (text ++ ']' :: rest) = behind outer rest
  | .member, text => ∀ {state bracket outer rest}, StartsKey state → Stops rest →
      run state (bracket :: outer) (text ++ rest) = run .afterValue (bracket :: outer) rest
  | .members, text => ∀ {state outer rest}, StartsKey state →
      run state (.object :: outer) (text ++ '\x7d' :: rest) = behind outer rest

/-- Every part of a text is skipped, by induction on how it is built. -/
theorem skips {part : Part} {text : List Char} (h : IsPart part text) : Skips part text := by
  induction h with
  | word text_mem =>
    intro state brackets rest hstate hrest
    simp only [List.mem_cons, List.not_mem_nil, or_false] at text_mem
    rcases text_mem with rfl | rfl | rfl
    all_goals
      rw [List.cons_append, run_start hstate rfl]
      exact run_word
  | number number => exact fun hstate hrest => run_number hstate number hrest
  | string body_isBody =>
    intro state brackets rest hstate hrest
    rw [List.cons_append, run_start hstate rfl, List.append_assoc, run_body body_isBody]
    exact run_complete rfl
  | emptyArray blanks_isBlank =>
    intro state brackets rest hstate hrest
    rw [List.cons_append, run_start hstate rfl, List.append_assoc,
      run_valueBlanks (.inr rfl) blanks_isBlank]
    exact run_complete rfl
  | array _ items =>
    intro state brackets rest hstate hrest
    rw [List.cons_append, run_start hstate rfl, List.append_assoc]
    exact items (.inr rfl)
  | emptyObject blanks_isBlank =>
    intro state brackets rest hstate hrest
    rw [List.cons_append, run_start hstate rfl, List.append_assoc,
      run_keyBlanks (.inr rfl) blanks_isBlank]
    exact run_complete rfl
  | object _ members =>
    intro state brackets rest hstate hrest
    rw [List.cons_append, run_start hstate rfl, List.append_assoc]
    exact members (.inr rfl)
  | item before_isBlank _ after_isBlank value =>
    intro state bracket outer rest hstate hrest
    rw [List.append_assoc, run_valueBlanks hstate before_isBlank, List.append_assoc,
      value hstate (hrest.blanks after_isBlank)]
    exact run_blanksBehind after_isBlank
  | lastItem _ item =>
    intro state outer rest hstate
    rw [item hstate .bracket]
    exact run_complete rfl
  | moreItems _ _ item more =>
    intro state outer rest hstate
    rw [List.append_assoc, List.cons_append, item hstate .comma, run_enter rfl]
    exact more (.inl rfl)
  | member before_isBlank key after_isBlank _ value =>
    intro state bracket outer rest hstate hrest
    have hquote : move state (bracket :: outer) '"' =
        .enter (.quoted true) (bracket :: outer) := by
      rcases hstate with rfl | rfl <;> rfl
    rw [List.append_assoc, run_keyBlanks hstate before_isBlank, List.cons_append,
      run_enter hquote, List.append_assoc, run_body key, List.cons_append, run_enter rfl,
      List.append_assoc, run_colonBlanks after_isBlank, List.cons_append, run_enter rfl]
    exact value (.inl rfl) hrest
  | lastMember _ member =>
    intro state outer rest hstate
    rw [member hstate .brace]
    exact run_complete rfl
  | moreMembers _ _ member more =>
    intro state outer rest hstate
    rw [List.append_assoc, List.cons_append, member hstate .comma, run_enter rfl]
    exact more (.inl rfl)

end Skip

/-- A well-formed value is skipped with the blanks in front of it, whatever it is. -/
theorem skipValue_isValue {blanks text rest : List Char} (hblanks : Blanks blanks)
    (h : IsValue text) (hrest : Stops rest) : skipValue (blanks ++ (text ++ rest)) = .ok rest := by
  rw [skipValue, Skip.run_valueBlanks (.inl rfl) hblanks]
  exact Skip.skips h (.inl rfl) hrest

end Json

end OrderStore
