import OrderStore.Json.Numeral
import OrderStore.Json.Quoted
import OrderStore.Json.Skip

/-!
# Reading a structure

A structure is written as an object of its fields in any order, or as an array
of the first few of them. A field that is left out keeps its default; a member
that is no field is skipped; a field that comes twice is refused.
-/

namespace OrderStore

namespace Json

/-- A field of a structure of type `σ`. -/
structure Field (σ : Type) where
  /-- The key of the field. -/
  name : String
  /-- Reads the field's value from the front of a text into the structure. -/
  read : σ → List Char → Parsed σ

/-- The fields of a structure in their order. -/
abbrev Schema (σ : Type) := List (Field σ)

/-- The fault of a text that holds another kind of value than the wanted one.
Words, numbers and strings are read to their end first. -/
def wrongKind (text : List Char) : Fault :=
  let fault {α : Type} : Except Fault α → Fault
    | .ok _ => .mismatched
    | .error fault => fault
  match text with
  | [] => .truncated
  | c :: rest =>
    if c = 'n' then fault (expect ['u', 'l', 'l'] rest)
    else if c = 't' then fault (expect ['r', 'u', 'e'] rest)
    else if c = 'f' then fault (expect ['a', 'l', 's', 'e'] rest)
    else if c = '"' then fault (readQuoted rest)
    else if c = '[' ∨ c = '\x7b' then .mismatched
    else if c = '-' ∨ isDigit c then fault (readNumeral text)
    else .malformed

/-- A natural number below `limit`. -/
def readNatural (limit : Nat) (text : List Char) : Parsed Nat :=
  match skipBlank text with
  | [] => .error .truncated
  | c :: rest =>
    if c = '-' ∨ isDigit c then
      match readNumeral (c :: rest) with
      | .ok (.natural n, rest) => if n < limit then .ok (n, rest) else .error .mismatched
      | .ok (.other, _) => .error .mismatched
      | .error fault => .error fault
    else .error (wrongKind (c :: rest))

/-- The text behind the colon that follows a key. -/
def skipColon (text : List Char) : Except Fault (List Char) :=
  match skipBlank text with
  | [] => .error .truncated
  | c :: rest => if c = ':' then .ok rest else .error .malformed

namespace Schema

variable {σ : Type}

/-- Reads the value behind a key into the structure. `seen` holds the fields
that came before; a repeated one is refused before its colon is looked at. -/
def readMember (schema : Schema σ) (seen : List String) (key : String) (value : σ)
    (text : List Char) : Parsed σ :=
  match schema.find? (·.name = key) with
  | some field =>
    if key ∈ seen then .error .mismatched
    else
      match skipColon text with
      | .error fault => .error fault
      | .ok text => field.read value text
  | none =>
    match skipColon text with
    | .error fault => .error fault
    | .ok text =>
      match skipValue text with
      | .error fault => .error fault
      | .ok text => .ok (value, text)

/-- The text from the next key on: behind a comma, unless it is the first. -/
def skipComma (isFirst : Bool) (text : List Char) : Except Fault (List Char) :=
  if isFirst then .ok text
  else
    match text with
    | ',' :: rest =>
      match skipBlank rest with
      | [] => .error .truncated
      | rest => .ok rest
    | _ => .error .malformed

/-- Reads the members of an object up to its closing brace; there are at most
`fuel` of them. -/
def readMembers (schema : Schema σ) :
    (fuel : Nat) → (isFirst : Bool) → (seen : List String) → σ → List Char → Parsed σ
  | 0, _, _, _, _ => .error .truncated
  | fuel + 1, isFirst, seen, value, text =>
    match skipBlank text with
    | [] => .error .truncated
    | '\x7d' :: rest => .ok (value, rest)
    | text =>
      match skipComma isFirst text with
      | .error fault => .error fault
      | .ok ('"' :: text) =>
        match readQuoted text with
        | .error fault => .error fault
        | .ok (key, text) =>
          match schema.readMember seen key value text with
          | .error fault => .error fault
          | .ok (value, text) => schema.readMembers fuel false (key :: seen) value text
      | .ok _ => .error .malformed

/-- Reads the items of an array as the given fields, up to its closing
bracket. -/
def readItems : (fields : List (Field σ)) → (isFirst : Bool) → σ → List Char → Parsed σ
  | [], _, value, text =>
    match skipBlank text with
    | [] => .error .truncated
    | c :: rest => if c = ']' then .ok (value, rest) else .error .malformed
  | field :: fields, isFirst, value, text =>
    match skipBlank text with
    | [] => .error .truncated
    | ']' :: rest => .ok (value, rest)
    | text =>
      match skipComma isFirst text with
      | .error fault => .error fault
      | .ok (']' :: _) => .error .malformed
      | .ok text =>
        match field.read value text with
        | .error fault => .error fault
        | .ok (value, text) => readItems fields false value text

/-- The structure at the front of a text, with `defaults` for what is left
out. -/
def read (schema : Schema σ) (defaults : σ) (text : List Char) : Parsed σ :=
  match skipBlank text with
  | [] => .error .truncated
  | '\x7b' :: rest => schema.readMembers (rest.length + 1) true [] defaults rest
  | '[' :: rest => readItems schema true defaults rest
  | text => .error (wrongKind text)

/-- The structure that a whole text holds. -/
def parse (schema : Schema σ) (defaults : σ) (text : String) : Except Fault σ :=
  match schema.read defaults text.toList with
  | .error fault => .error fault
  | .ok (value, rest) => if (skipBlank rest).isEmpty then .ok value else .error .malformed

end Schema

end Json

end OrderStore
