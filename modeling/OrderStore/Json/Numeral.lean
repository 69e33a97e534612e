import OrderStore.Binary64.Magnitude
import OrderStore.Json.Basic

/-!
# Numerals

A numeral without fraction, exponent and sign is a natural number as long as it
fits into 64 bits. Every other numeral stands for a binary64 number; its value
is not wanted here, only whether it lies beyond the finite ones.
-/

namespace OrderStore

namespace Json

/-- What a numeral stands for. -/
inductive Numeral where
  /-- A natural number below `2 ^ 64`. -/
  | natural (n : Nat)
  /-- Any other finite number. -/
  | other
deriving DecidableEq

namespace Numeral

/-- Digits taken over into a significand below `2 ^ 64`, and how many were. The
first that would make it too large ends this. -/
def significand (start : Nat) : (digits : List Char) → Nat × Nat
  | [] => (start, 0)
  | digit :: digits =>
    let next := 10 * start + digitValue digit
    if UInt64.size ≤ next then (start, 0)
    else
      let (value, count) := significand next digits
      (value, count + 1)

/-- Whether `significand * 10 ^ exponent` is infinite when both factors and the
product are rounded to binary64. -/
def isInfinite (significand : Nat) (exponent : Int) : Bool :=
  if significand = 0 ∨ exponent < 0 then false
  else if 308 < exponent then true
  else !((Magnitude.ofNat significand).mul (.ofNat (Nat.pow 10 exponent.toNat))).isFinite

/-- A numeral that is not natural, unless it is infinite. -/
def finite (significand : Nat) (exponent : Int) (rest : List Char) : Parsed Numeral :=
  if isInfinite significand exponent then .error .malformed else .ok (.other, rest)

/-- The sign in front of an exponent: whether it is negative. -/
def exponentSign : List Char → Bool × List Char
  | '+' :: text => (false, text)
  | '-' :: text => (true, text)
  | text => (false, text)

/-- The rest of a numeral behind its exponent mark. -/
def readExponent (significand : Nat) (start : Int) (text : List Char) : Parsed Numeral :=
  let (negative, text) := exponentSign text
  match text with
  | [] => .error .truncated
  | c :: _ =>
    if isDigit c then
      let exponent : Int := (text.takeWhile isDigit).foldl (fun n d => 10 * n + digitValue d) 0
      finite significand (if negative then start - exponent else start + exponent)
        (text.dropWhile isDigit)
    else .error .malformed

/-- The rest of a numeral behind its significand, if that is all there is before
a possible exponent. -/
def readTail (significand : Nat) (exponent : Int) (text : List Char) : Parsed Numeral :=
  match text with
  | 'e' :: rest => readExponent significand exponent rest
  | 'E' :: rest => readExponent significand exponent rest
  | _ => finite significand exponent text

/-- The rest of a numeral behind its decimal point. -/
def readFraction (start : Nat) (exponent : Int) (text : List Char) : Parsed Numeral :=
  match text with
  | [] => .error .truncated
  | c :: _ =>
    if isDigit c then
      let (value, count) := significand start (text.takeWhile isDigit)
      readTail value (exponent - count) (text.dropWhile isDigit)
    else .error .malformed

/-- The rest of a numeral behind its integer digits. -/
def readInteger (negative : Bool) (digits rest : List Char) : Parsed Numeral :=
  let (value, count) := significand 0 digits
  let exponent : Int := digits.length - count
  match rest with
  | '.' :: rest => readFraction value exponent rest
  | 'e' :: _ => readTail value exponent rest
  | 'E' :: _ => readTail value exponent rest
  | _ =>
    if count < digits.length then finite value exponent rest
    else if negative then .ok (.other, rest)
    else .ok (.natural value, rest)

/-- A numeral behind its sign. -/
def readUnsigned (negative : Bool) (text : List Char) : Parsed Numeral :=
  match text with
  | [] => .error .truncated
  | '0' :: rest =>
    match rest with
    | [] => readInteger negative ['0'] rest
    | c :: _ => if isDigit c then .error .malformed else readInteger negative ['0'] rest
  | c :: _ =>
    if isDigit c then
      readInteger negative (text.takeWhile isDigit) (text.dropWhile isDigit)
    else .error .malformed

end Numeral

/-- The numeral at the front of a text. -/
def readNumeral : List Char → Parsed Numeral
  | '-' :: text => Numeral.readUnsigned true text
  | text => Numeral.readUnsigned false text

end Json

end OrderStore
