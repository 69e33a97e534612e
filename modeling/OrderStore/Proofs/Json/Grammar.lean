import OrderStore.Json.Quoted

/-!
# The grammar of JSON texts

What a well-formed text is, written down as rules that do not mention any reader: blanks,
numbers, strings, values of any depth, and objects with the members they have. A string
may be spelt in several ways, with or without escapes; where its characters matter,
surrogates have to come in pairs, and elsewhere they need not.
-/

namespace OrderStore

namespace Json

/-- Characters that may stand between two tokens. -/
def Blanks (text : List Char) : Prop := ∀ c ∈ text, isBlank c = true

/-- Some decimal digits. -/
def Digits (text : List Char) : Prop := text ≠ [] ∧ ∀ c ∈ text, isDigit c = true

/-- What follows a value: nothing, a blank, a comma or a closing bracket. -/
def Stops : List Char → Prop
  | [] => True
  | c :: _ => isBlank c = true ∨ c = ',' ∨ c = ']' ∨ c = '\x7d'

/-! ## Numbers -/

/-- The integer digits of a number. Zero stands alone, and no other number starts with
it. -/
inductive IsInteger : List Char → Prop
  /-- Zero. -/
  | zero : IsInteger ['0']
  /-- Digits of which the first is not zero. -/
  | positive {first : Char} {rest : List Char} (first_isDigit : isDigit first = true)
      (first_ne : first ≠ '0') (rest_isDigit : ∀ c ∈ rest, isDigit c = true) :
      IsInteger (first :: rest)

/-- The fraction of a number, if it has one. -/
inductive IsFraction : List Char → Prop
  /-- There is none. -/
  | absent : IsFraction []
  /-- A decimal point and digits. -/
  | present {digits : List Char} (digits_isDigit : Digits digits) : IsFraction ('.' :: digits)

/-- The exponent of a number, if it has one. -/
inductive IsExponent : List Char → Prop
  /-- There is none. -/
  | absent : IsExponent []
  /-- A mark, perhaps a sign, and digits. -/
  | present {mark : Char} {sign digits : List Char} (mark_mem : mark ∈ ['e', 'E'])
      (sign_mem : sign ∈ [[], ['+'], ['-']]) (digits_isDigit : Digits digits) :
      IsExponent (mark :: (sign ++ digits))

/-- A number of any size. -/
inductive IsNumber : List Char → Prop
  /-- Perhaps a minus sign, then the digits. -/
  | mk {sign integer fraction exponent : List Char} (sign_mem : sign ∈ [[], ['-']])
      (integer_isInteger : IsInteger integer) (fraction_isFraction : IsFraction fraction)
      (exponent_isExponent : IsExponent exponent) :
      IsNumber (sign ++ (integer ++ (fraction ++ exponent)))

/-- The number that decimal digits stand for. -/
def decimalValue (digits : List Char) : Nat := digits.foldl (fun n d => 10 * n + digitValue d) 0

/-- The text of the natural number `n`, in plain decimal digits. -/
def IsNatural (text : List Char) (n : Nat) : Prop := IsInteger text ∧ decimalValue text = n

/-! ## Strings -/

/-- A character that may stand in a string as it is. -/
def IsPlain (c : Char) : Prop := c ≠ '"' ∧ c ≠ '\\' ∧ ¬ c < ' '

/-- The four hexadecimal digits of a number. -/
inductive IsUnit : List Char → Nat → Prop
  /-- One digit behind the other. -/
  | mk {a b c d : Char} {p q r s : Nat} (first : hexValue? a = some p)
      (second : hexValue? b = some q) (third : hexValue? c = some r)
      (fourth : hexValue? d = some s) : IsUnit [a, b, c, d] (16 * (16 * (16 * p + q) + r) + s)

/-- What stands between the quotes of a string, whatever it may mean. -/
inductive IsBody : List Char → Prop
  /-- Nothing. -/
  | nil : IsBody []
  /-- A character that is not escaped. -/
  | plain {c : Char} {text : List Char} (plain : IsPlain c) (rest : IsBody text) :
      IsBody (c :: text)
  /-- An escape by letter. -/
  | letter {letter c : Char} {text : List Char} (escaped : Quoted.escaped? letter = some c)
      (rest : IsBody text) : IsBody ('\\' :: letter :: text)
  /-- An escape by number, which may be a surrogate. -/
  | unit {digits text : List Char} {n : Nat} (unit : IsUnit digits n) (rest : IsBody text) :
      IsBody ('\\' :: 'u' :: (digits ++ text))

/-- What stands between the quotes spells these characters. -/
inductive Spells : List Char → List Char → Prop
  /-- Nothing. -/
  | nil : Spells [] []
  /-- A character that is not escaped. -/
  | plain {c : Char} {text characters : List Char} (plain : IsPlain c)
      (rest : Spells text characters) : Spells (c :: text) (c :: characters)
  /-- A character that is escaped by a letter. -/
  | letter {letter c : Char} {text characters : List Char}
      (escaped : Quoted.escaped? letter = some c) (rest : Spells text characters) :
      Spells ('\\' :: letter :: text) (c :: characters)
  /-- A character that is escaped by its number. -/
  | unit {digits text characters : List Char} {n : Nat} (unit : IsUnit digits n)
      (no_surrogate : n < 0xd800 ∨ 0xdfff < n) (rest : Spells text characters) :
      Spells ('\\' :: 'u' :: (digits ++ text)) (Char.ofNat n :: characters)
  /-- A character that is escaped by a leading and a trailing surrogate. -/
  | pair {digits digits' text characters : List Char} {lead trail : Nat}
      (lead_unit : IsUnit digits lead) (is_lead : 0xd800 ≤ lead ∧ lead ≤ 0xdbff)
      (trail_unit : IsUnit digits' trail) (is_trail : 0xdc00 ≤ trail ∧ trail ≤ 0xdfff)
      (rest : Spells text characters) :
      Spells ('\\' :: 'u' :: (digits ++ '\\' :: 'u' :: (digits' ++ text)))
        (Char.ofNat (0x10000 + (lead - 0xd800) * 0x400 + (trail - 0xdc00)) :: characters)

/-! ## Values -/

/-- A part of a text. -/
inductive Part where
  /-- A value, without blanks around it. -/
  | value
  /-- A value with blanks around it. -/
  | item
  /-- The items of an array that is not empty. -/
  | items
  /-- A key and a value. -/
  | member
  /-- The members of an object that is not empty. -/
  | members

/-- What such a part may be. -/
inductive IsPart : Part → List Char → Prop
  /-- A fixed word. -/
  | word {text : List Char} (text_mem : text ∈
      [['n', 'u', 'l', 'l'], ['t', 'r', 'u', 'e'], ['f', 'a', 'l', 's', 'e']]) : IsPart .value text
  /-- A number. -/
  | number {text : List Char} (number : IsNumber text) : IsPart .value text
  /-- A string. -/
  | string {body : List Char} (body_isBody : IsBody body) :
      IsPart .value ('"' :: (body ++ ['"']))
  /-- An array without items. -/
  | emptyArray {blanks : List Char} (blanks_isBlank : Blanks blanks) :
      IsPart .value ('[' :: (blanks ++ [']']))
  /-- An array with items. -/
  | array {text : List Char} (items : IsPart .items text) : IsPart .value ('[' :: (text ++ [']']))
  /-- An object without members. -/
  | emptyObject {blanks : List Char} (blanks_isBlank : Blanks blanks) :
      IsPart .value ('\x7b' :: (blanks ++ ['\x7d']))
  /-- An object with members. -/
  | object {text : List Char} (members : IsPart .members text) :
      IsPart .value ('\x7b' :: (text ++ ['\x7d']))
  /-- A value with blanks around it. -/
  | item {before text after : List Char} (before_isBlank : Blanks before)
      (value : IsPart .value text) (after_isBlank : Blanks after) :
      IsPart .item (before ++ (text ++ after))
  /-- The last item. -/
  | lastItem {text : List Char} (item : IsPart .item text) : IsPart .items text
  /-- An item and more of them. -/
  | moreItems {text others : List Char} (item : IsPart .item text)
      (more : IsPart .items others) : IsPart .items (text ++ ',' :: others)
  /-- A quoted key, a colon and a value, with blanks around each. -/
  | member {before body after text : List Char} (before_isBlank : Blanks before)
      (key : IsBody body) (after_isBlank : Blanks after) (value : IsPart .item text) :
      IsPart .member (before ++ '"' :: (body ++ '"' :: (after ++ ':' :: text)))
  /-- The last member. -/
  | lastMember {text : List Char} (member : IsPart .member text) : IsPart .members text
  /-- A member and more of them. -/
  | moreMembers {text others : List Char} (member : IsPart .member text)
      (more : IsPart .members others) : IsPart .members (text ++ ',' :: others)

/-- A well-formed value. -/
def IsValue (text : List Char) : Prop := IsPart .value text

/-! ## Objects -/

/-- A member with this key and this text of a value, as it may be written. -/
inductive IsMember (key : String) (value : List Char) : List Char → Prop
  /-- The quoted key and the value, with blanks around both. -/
  | mk {blanks spelling blanks' blanks'' blanks''' : List Char} (before_key : Blanks blanks)
      (spells : Spells spelling key.toList) (behind_key : Blanks blanks')
      (before_value : Blanks blanks'') (behind_value : Blanks blanks''') :
      IsMember key value (blanks ++
        '"' :: (spelling ++ '"' :: (blanks' ++ ':' :: (blanks'' ++ (value ++ blanks''')))))

/-- Members one behind the other, each with its key and the text of its value. -/
inductive AreMembers : List (String × List Char) → List Char → Prop
  /-- The last one. -/
  | last {key : String} {value text : List Char} (member : IsMember key value text) :
      AreMembers [(key, value)] text
  /-- One and a comma in front of the others. -/
  | cons {key : String} {value text others : List Char} {members : List (String × List Char)}
      (member : IsMember key value text) (more : AreMembers members others) :
      AreMembers ((key, value) :: members) (text ++ ',' :: others)

/-- An object with these members. -/
inductive IsObject : List (String × List Char) → List Char → Prop
  /-- An object without members. -/
  | empty {blanks : List Char} (blanks_isBlank : Blanks blanks) :
      IsObject [] ('\x7b' :: (blanks ++ ['\x7d']))
  /-- An object with members. -/
  | filled {members : List (String × List Char)} {text : List Char}
      (are_members : AreMembers members text) :
      IsObject members ('\x7b' :: (text ++ ['\x7d']))

/-- The texts of the values that members have for a key. -/
def textsOf (members : List (String × List Char)) (key : String) : List (List Char) :=
  (members.filter (·.1 = key)).map (·.2)

/-- What members say about a key: nothing at all, or once that it has this value. -/
def Says {α : Type} (members : List (String × List Char)) (key : String)
    (writes : List Char → α → Prop) : Option α → Prop
  | none => textsOf members key = []
  | some a => ∃ text, textsOf members key = [text] ∧ writes text a

end Json

end OrderStore
