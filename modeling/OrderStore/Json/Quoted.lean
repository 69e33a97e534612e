import OrderStore.Json.Basic

/-!
# Quoted strings

A string is read character by character behind its opening quote. Characters
outside the basic plane may be written as two escapes, a leading and a trailing
surrogate; neither may stand alone.
-/

namespace OrderStore

namespace Json

namespace Quoted

/-- Where in a string the reader is. -/
inductive State where
  /-- Between characters. -/
  | plain
  /-- Behind a backslash. -/
  | escape
  /-- In an escape by number, with `left` digits to come; `lead` is the leading
  surrogate before it, if there was one. -/
  | hex (lead : Option Nat) (left value : Nat)
  /-- Behind a leading surrogate. -/
  | afterLead (lead : Nat)
  /-- Behind a leading surrogate and a backslash. -/
  | afterLeadEscape (lead : Nat)
deriving DecidableEq

/-- What one character of the text does. -/
inductive Move where
  /-- It completes a character of the string. -/
  | emit (c : Char)
  /-- It leads on within an escape. -/
  | enter (state : State)
  /-- It closes the string. -/
  | close
  /-- It cannot stand here. -/
  | fail
deriving DecidableEq

/-- The character that an escape by letter stands for. -/
def escaped? (c : Char) : Option Char :=
  match c with
  | '"' => some '"'
  | '\\' => some '\\'
  | '/' => some '/'
  | 'b' => some '\x08'
  | 'f' => some '\x0c'
  | 'n' => some '\n'
  | 'r' => some '\r'
  | 't' => some '\t'
  | _ => none

/-- Whether a number is a leading surrogate. -/
def isLead (unit : Nat) : Bool := 0xd800 ≤ unit ∧ unit ≤ 0xdbff

/-- Whether a number is a trailing surrogate. -/
def isTrail (unit : Nat) : Bool := 0xdc00 ≤ unit ∧ unit ≤ 0xdfff

/-- What a complete escape by number does. -/
def unitMove (lead : Option Nat) (unit : Nat) : Move :=
  match lead with
  | none =>
    if isTrail unit then .fail
    else if isLead unit then .enter (.afterLead unit)
    else .emit (Char.ofNat unit)
  | some lead =>
    if isTrail unit then .emit (Char.ofNat (0x10000 + (lead - 0xd800) * 0x400 + (unit - 0xdc00)))
    else .fail

/-- What the character `c` does in a state. -/
def move (state : State) (c : Char) : Move :=
  match state with
  | .plain =>
    if c = '"' then .close
    else if c = '\\' then .enter .escape
    else if c < ' ' then .fail
    else .emit c
  | .escape =>
    match escaped? c with
    | some e => .emit e
    | none => if c = 'u' then .enter (.hex none 4 0) else .fail
  | .hex lead left value =>
    match hexValue? c with
    | none => .fail
    | some digit =>
      let value := 16 * value + digit
      if 1 < left then .enter (.hex lead (left - 1) value) else unitMove lead value
  | .afterLead lead => if c = '\\' then .enter (.afterLeadEscape lead) else .fail
  | .afterLeadEscape lead => if c = 'u' then .enter (.hex (some lead) 4 0) else .fail

/-- How many digits an escape by number still wants. -/
def State.wanted : State → Nat
  | hex _ left _ => left
  | _ => 0

/-- The rest of a string up to its closing quote, from the given state on. -/
def read : State → List Char → Parsed (List Char)
  | _, [] => .error .truncated
  | state, c :: text =>
    match move state c with
    | .emit e =>
      match read .plain text with
      | .ok (characters, rest) => .ok (e :: characters, rest)
      | .error fault => .error fault
    | .enter next => read next text
    | .close => .ok ([], text)
    | .fail => .error (hexFault state.wanted (c :: text))

end Quoted

/-- The string whose opening quote has just been read. -/
def readQuoted (text : List Char) : Parsed String :=
  match Quoted.read .plain text with
  | .ok (characters, rest) => .ok (String.ofList characters, rest)
  | .error fault => .error fault

end Json

end OrderStore
