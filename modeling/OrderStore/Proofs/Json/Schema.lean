import OrderStore.Proofs.Json.Scalars

/-!
# Objects are read member by member

A member either belongs to a field, whose reader takes its value, or is skipped. Reading an
object applies what its members do one after the other to the defaults, wherever the object
stands and however its members are spelt and spaced, as long as no field comes twice. The
argument is an induction on the members; it carries along that none of those still to come
belongs to a field that was there before.
-/

namespace OrderStore

namespace Json

/-! ## What members say -/

section Says

variable {α : Type} {members : List (String × List Char)} {key name : String}
  {text : List Char} {writes : List Char → α → Prop} {given : Option α}

theorem Says.nil (h : Says [] key writes given) : given = none := by
  cases given with
  | none => rfl
  | some a =>
    obtain ⟨text, heq, -⟩ := h
    cases heq

/-- A key with a value is there once, with a text of the value. -/
theorem Says.head (h : Says ((key, text) :: members) key writes given) :
    ∃ a, given = some a ∧ writes text a ∧ ∀ member ∈ members, member.1 ≠ key := by
  have htexts : textsOf ((key, text) :: members) key = text :: textsOf members key := by
    simp [textsOf]
  cases given with
  | none =>
    rw [Says, htexts] at h
    cases h
  | some a =>
    obtain ⟨written, heq, hwrites⟩ := h
    rw [htexts, List.cons.injEq] at heq
    obtain ⟨rfl, hnone⟩ := heq
    refine ⟨a, rfl, hwrites, ?_⟩
    simpa [textsOf] using hnone

/-- Without their first member the others say the same of every other key, and nothing of
its own. -/
theorem Says.tail (h : Says ((key, text) :: members) name writes given) :
    Says members name writes (if key = name then none else given) := by
  by_cases hkey : key = name
  · subst hkey
    obtain ⟨_, _, _, hnone⟩ := h.head
    rw [if_pos rfl, Says]
    simpa [textsOf] using hnone
  · have htexts : textsOf ((key, text) :: members) name = textsOf members name := by
      simp [textsOf, hkey]
    have hsame : Says ((key, text) :: members) name writes given ↔
        Says members name writes given := by
      cases given <;> simp only [Says, htexts]
    rw [if_neg hkey]
    exact hsame.mp h

end Says

/-- A field as it is rendered: its name between quotes and its value behind the colon. -/
theorem isMember_rendered {name : String} {value : List Char} (h : ∀ c ∈ name.toList, IsPlain c) :
    IsMember name value ('"' :: (name.toList ++ '"' :: ':' :: value)) := by
  have hnone : Blanks [] := by simp [Blanks]
  have hmember : IsMember name value _ := .mk hnone (.refl h) hnone hnone hnone
  simpa using hmember

/-! ## What members do -/

variable {σ : Type}

/-- The field's reader takes this text of a value wherever it stands. -/
def Field.Takes (field : Field σ) (text : List Char) (change : σ → σ) : Prop :=
  ∀ {value : σ} {blanks rest : List Char}, Blanks blanks → Stops rest →
    field.read value (blanks ++ (text ++ rest)) = .ok (change value, rest)

/-- A field that holds a word takes the text of every number that is one. -/
theorem Field.takes_word {α : Type} {field : Field σ} {limit : Nat} {text : List Char} {word : α}
    (toNat : α → Nat) (ofNat : Nat → α) (set : σ → α → σ)
    (hread : ∀ value text, field.read value text =
      match readNatural limit text with
      | .ok (n, rest) => .ok (set value (ofNat n), rest)
      | .error fault => .error fault)
    (hsize : limit ≤ UInt64.size) (hlimit : toNat word < limit) (hword : ofNat (toNat word) = word)
    (htext : IsNatural text (toNat word)) : field.Takes text (set · word) := by
  intro value blanks rest hblanks hrest
  simp only [hread, readNatural_isNatural hblanks htext hlimit hsize hrest, hword]

/-- Every member takes up some text. -/
theorem AreMembers.length_le {members : List (String × List Char)} {text : List Char}
    (h : AreMembers members text) : members.length ≤ text.length := by
  have hmember {key : String} {value member : List Char} (h : IsMember key value member) :
      1 ≤ member.length := by
    cases h
    simp only [List.length_append, List.length_cons]
    omega
  induction h with
  | last member => exact hmember member
  | cons member _ ih =>
    have hone := hmember member
    simp only [List.length_append, List.length_cons]
    omega

namespace Schema

/-- Whether a key belongs to a field. -/
def Knows (schema : Schema σ) (key : String) : Prop :=
  ∃ field, schema.find? (·.name = key) = some field

/-- What a member does to a structure. -/
inductive Means (schema : Schema σ) (key : String) (text : List Char) : (σ → σ) → Prop
  /-- The field of this key takes its value. -/
  | field {field : Field σ} {change : σ → σ}
      (find_eq : schema.find? (·.name = key) = some field) (takes : field.Takes text change) :
      Means schema key text change
  /-- Without such a field any value changes nothing. -/
  | other (find_eq : schema.find? (·.name = key) = none) (text_isValue : IsValue text) :
      Means schema key text id

/-- What members do to a structure one after the other, without a field that comes twice. -/
inductive Gives (schema : Schema σ) : List (String × List Char) → (σ → σ) → Prop
  /-- Nothing. -/
  | nil : Gives schema [] id
  /-- What the first does and then what the others do. -/
  | cons {key : String} {text : List Char} {members : List (String × List Char)}
      {change changes : σ → σ} (means : schema.Means key text change)
      (once : schema.Knows key → ∀ member ∈ members, member.1 ≠ key)
      (more : Gives schema members changes) :
      Gives schema ((key, text) :: members) (changes ∘ change)

variable {schema : Schema σ} {key : String} {seen : List String} {value : σ}
  {change : σ → σ} {text rest blanks lead : List Char} {isFirst : Bool} {fuel : Nat}
  {members : List (String × List Char)}

theorem not_knows (h : schema.find? (·.name = key) = none) : ¬ schema.Knows key := by
  rintro ⟨field, hfield⟩
  rw [h] at hfield
  cases hfield

/-- The first member is taken off: `whole` is what it does and then `rest`, and its field
does not come again. -/
def Peels (schema : Schema σ) (key : String) (text : List Char)
    (members : List (String × List Char)) (whole rest : σ → σ) : Prop :=
  ∃ change, schema.Means key text change ∧
    (schema.Knows key → ∀ member ∈ members, member.1 ≠ key) ∧ whole = rest ∘ change

/-- A member that says the value of a field sets it. -/
theorem Peels.field {α : Type} {field : Field σ} {whole rest : σ → σ} {set : σ → α → σ}
    {writes : List Char → α → Prop} {given : Option α}
    (hfind : schema.find? (·.name = key) = some field)
    (htakes : ∀ {a}, writes text a → field.Takes text (set · a))
    (hsaid : Says ((key, text) :: members) key writes given)
    (hwhole : ∀ a, given = some a → ∀ value, whole value = rest (set value a)) :
    schema.Peels key text members whole rest := by
  obtain ⟨a, hgiven, hwrites, honce⟩ := hsaid.head
  exact ⟨_, .field hfind (htakes hwrites), fun _ => honce, funext (hwhole a hgiven)⟩

/-- A member of which nothing is known changes nothing. -/
theorem Peels.other {whole : σ → σ} (hfind : schema.find? (·.name = key) = none)
    (hvalue : IsValue text) : schema.Peels key text members whole whole :=
  ⟨id, .other hfind hvalue, fun hknows => absurd hknows (not_knows hfind), rfl⟩

theorem Peels.gives {whole rest : σ → σ} (h : schema.Peels key text members whole rest)
    (hrest : schema.Gives members rest) : schema.Gives ((key, text) :: members) whole := by
  obtain ⟨change, hmeans, honce, rfl⟩ := h
  exact .cons hmeans honce hrest

/-! ## One member -/

theorem skipColon_blanks (h : Blanks blanks) : skipColon (blanks ++ ':' :: text) = .ok text := by
  rw [skipColon, skipBlank_blanks h rfl]
  rfl

/-- Behind its key a member does what it means, unless its field has been there before. -/
theorem readMember_means {blanks' : List Char} (value : σ) (hmeans : schema.Means key text change)
    (hseen : schema.Knows key → key ∉ seen) (hblanks : Blanks blanks) (hblanks' : Blanks blanks')
    (hrest : Stops rest) :
    schema.readMember seen key value (blanks ++ ':' :: (blanks' ++ (text ++ rest))) =
      .ok (change value, rest) := by
  cases hmeans with
  | field find_eq takes =>
    simp only [readMember, find_eq, if_neg (hseen ⟨_, find_eq⟩), skipColon_blanks hblanks]
    exact takes hblanks' hrest
  | other find_eq text_isValue =>
    simp only [readMember, find_eq, skipColon_blanks hblanks,
      skipValue_isValue hblanks' text_isValue hrest, id_eq]

/-- What stands in front of a member: nothing behind the opening brace, else a comma. -/
def Leads : (isFirst : Bool) → List Char → Prop
  | true, text => text = []
  | false, text => ∃ blanks, Blanks blanks ∧ text = blanks ++ [',']

/-- One member is read and only the blanks behind its value are left of it. -/
theorem readMembers_member {member : List Char} (fuel : Nat) (value : σ)
    (hlead : Leads isFirst lead) (hmember : IsMember key text member)
    (hmeans : schema.Means key text change) (hseen : schema.Knows key → key ∉ seen)
    (hrest : Stops rest) :
    ∃ blanks, Blanks blanks ∧
      schema.readMembers (fuel + 1) isFirst seen value (lead ++ (member ++ rest)) =
        schema.readMembers fuel false (key :: seen) (change value) (blanks ++ rest) := by
  obtain @⟨before, spelling, blanks, blanks', behind, before_key, spells, behind_key,
    before_value, behind_value⟩ := hmember
  refine ⟨behind, behind_value, ?_⟩
  have hkey (behindKey : List Char) :
      readQuoted (spelling ++ '"' :: behindKey) = .ok (key, behindKey) := readQuoted_spells spells
  have hread := readMember_means value hmeans hseen behind_key before_value
    (hrest.blanks behind_value)
  have hquote : isBlank '"' = false := rfl
  have hcomma : isBlank ',' = false := rfl
  cases isFirst with
  | true =>
    obtain rfl : lead = [] := hlead
    simp [readMembers, skipBlank_blanks before_key hquote, skipComma, hkey, hread]
  | false =>
    obtain ⟨start, hstart, rfl⟩ := hlead
    simp [readMembers, skipBlank_blanks before_key hquote, skipBlank_blanks hstart hcomma,
      skipComma, hkey, hread]

/-! ## All members -/

theorem readMembers_brace (h : Blanks blanks) :
    schema.readMembers (fuel + 1) isFirst seen value (blanks ++ '\x7d' :: rest) =
      .ok (value, rest) := by
  have hbrace : isBlank '\x7d' = false := rfl
  simp only [readMembers, skipBlank_blanks h hbrace]

/-- The members up to the closing brace do one after the other what they mean. -/
theorem readMembers_areMembers (h : AreMembers members text) :
    ∀ (value : σ) {change : σ → σ} {isFirst : Bool} {seen : List String} {lead : List Char}
      {fuel : Nat}, schema.Gives members change → Leads isFirst lead → members.length < fuel →
      (∀ member ∈ members, schema.Knows member.1 → member.1 ∉ seen) →
      schema.readMembers fuel isFirst seen value (lead ++ (text ++ '\x7d' :: rest)) =
        .ok (change value, rest) := by
  induction h with
  | last member =>
    intro value change isFirst seen lead fuel hgives hlead hfuel hseen
    obtain ⟨fuel, rfl⟩ := Nat.exists_eq_add_of_lt hfuel
    cases hgives with
    | cons means once more =>
      cases more
      obtain ⟨blanks, hblanks, hread⟩ := readMembers_member (fuel + 1) value hlead member means
        (hseen _ List.mem_cons_self) .brace
      rw [List.length_singleton, Nat.add_comm 1, hread, readMembers_brace hblanks]
      rfl
  | @cons key text memberText others members member _ ih =>
    intro value change isFirst seen lead fuel hgives hlead hfuel hseen
    obtain ⟨fuel, rfl⟩ : ∃ fuel', fuel = fuel' + 1 := Nat.exists_eq_succ_of_ne_zero (by omega)
    cases hgives with
    | @cons _ _ _ change changes means once more =>
      have hcomma : Stops (',' :: (others ++ '\x7d' :: rest)) := .comma
      obtain ⟨blanks, hblanks, hread⟩ := readMembers_member fuel value hlead member means
        (hseen _ List.mem_cons_self) hcomma
      -- The key joins those seen; a field that comes again would break `once`.
      have hseen' : ∀ member ∈ members, schema.Knows member.1 → member.1 ∉ key :: seen := by
        intro member hmember hknows hin
        rcases List.mem_cons.mp hin with heq | hin
        · exact once (heq ▸ hknows) member hmember heq
        · exact hseen member (List.mem_cons_of_mem _ hmember) hknows hin
      have hlead' : Leads false (blanks ++ [',']) := ⟨blanks, hblanks, rfl⟩
      have hmore := ih (change value) more hlead' (Nat.lt_of_succ_lt_succ hfuel) hseen'
      rw [List.append_assoc, List.singleton_append] at hmore
      rw [List.append_assoc, List.cons_append, hread, hmore]
      rfl

/-- An object is read as what its members make of the defaults. -/
theorem read_isObject {defaults : σ} {object : List Char} (hblanks : Blanks blanks)
    (hobject : IsObject members object) (hgives : schema.Gives members change) :
    schema.read defaults (blanks ++ (object ++ rest)) = .ok (change defaults, rest) := by
  have hbrace : isBlank '\x7b' = false := rfl
  cases hobject with
  | @empty inner inner_isBlank =>
    cases hgives
    have hread : schema.readMembers ((inner ++ '\x7d' :: rest).length + 1) true [] defaults
        (inner ++ '\x7d' :: rest) = .ok (defaults, rest) := readMembers_brace inner_isBlank
    simpa [read, skipBlank_blanks hblanks hbrace] using hread
  | @filled _ text are_members =>
    have hfuel : members.length < (text ++ '\x7d' :: rest).length + 1 := by
      have hlength := are_members.length_le
      rw [List.length_append]
      omega
    have hread : schema.readMembers ((text ++ '\x7d' :: rest).length + 1) true [] defaults
        ([] ++ (text ++ '\x7d' :: rest)) = .ok (change defaults, rest) :=
      readMembers_areMembers are_members defaults hgives rfl hfuel fun _ _ _ => List.not_mem_nil
    simpa [read, skipBlank_blanks hblanks hbrace] using hread

/-- A text of nothing but an object and blanks around it is read as what its members make of
the defaults. -/
theorem parse_isObject {defaults : σ} {object blanks' : List Char} {whole : String}
    (hblanks : Blanks blanks) (hobject : IsObject members object)
    (hgives : schema.Gives members change) (hblanks' : Blanks blanks')
    (htext : whole.toList = blanks ++ (object ++ blanks')) :
    schema.parse defaults whole = .ok (change defaults) := by
  have hend : skipBlank blanks' = [] := by
    rw [skipBlank, ← List.append_nil blanks', List.dropWhile_append_of_pos hblanks']
    rfl
  rw [parse, htext, read_isObject hblanks hobject hgives]
  simp only [hend, List.isEmpty_nil, if_true]

end Schema

end Json

end OrderStore
