import DspAsm.Json.Basic
import DspAsm.Text.Numeral

namespace DspAsm.Json.Reader

def skipBlanks (text : List Char) : List Char :=
  text.dropWhile fun c => c == ' ' || c == '\n' || c == '\t' || c == '\r'

def skipDigits? (text : List Char) : Option (List Char) :=
  if text.head?.any Char.isDigit then some (text.dropWhile Char.isDigit) else none

def fraction? : List Char → Option (Bool × List Char)
  | '.' :: text => (skipDigits? text).map (true, ·)
  | text => some (false, text)

def exponent? : List Char → Option (Bool × List Char)
  | c :: text =>
    if c == 'e' || c == 'E' then
      match text with
      | '+' :: text | '-' :: text => (skipDigits? text).map (true, ·)
      | text => (skipDigits? text).map (true, ·)
    else some (false, c :: text)
  | [] => some (false, [])

/-- The value of a number without fraction and exponent. Minus zero and what 64 bits do not hold are no integers. -/
def integer (negative : Bool) (magnitude : Nat) : Json :=
  if negative then
    if 0 < magnitude ∧ magnitude ≤ 0x8000000000000000 then int (-magnitude) else other
  else
    if magnitude < 0x10000000000000000 then int magnitude else other

def magnitude? (negative : Bool) (text : List Char) : Option (Json × List Char) := do
  let digits := text.takeWhile Char.isDigit
  if digits = [] ∨ (digits.head? = some '0' ∧ digits ≠ ['0']) then none
  let (fraction, rest) ← fraction? (text.dropWhile Char.isDigit)
  let (exponent, rest) ← exponent? rest
  return (if fraction || exponent then other else integer negative (Numeral.ofDigits 10 digits), rest)

def number? : List Char → Option (Json × List Char)
  | '-' :: text => magnitude? true text
  | text => magnitude? false text

def escaped? : Char → Option Char
  | '"' => some '"'
  | '\\' => some '\\'
  | '/' => some '/'
  | 'b' => some '\x08'
  | 'f' => some '\x0c'
  | 'n' => some '\n'
  | 'r' => some '\r'
  | 't' => some '\t'
  | _ => none

/-- The body of a string up to its closing quote, as code points and, for escapes, as UTF-16 code units. -/
def units? : List Char → Option (List Nat × List Char)
  | [] => none
  | '"' :: text => some ([], text)
  | '\\' :: 'u' :: a :: b :: c :: d :: text => do
    let unit ← Numeral.magnitude? 16 [a, b, c, d]
    let (units, rest) ← units? text
    return (unit :: units, rest)
  | '\\' :: c :: text => do
    let unit ← escaped? c
    let (units, rest) ← units? text
    return (unit.toNat :: units, rest)
  | c :: text =>
    if c == '\\' || c.toNat < 0x20 then none
    else do
      let (units, rest) ← units? text
      return (c.toNat :: units, rest)

def isLead (unit : Nat) : Bool :=
  0xd800 ≤ unit && unit < 0xdc00

def isTrail (unit : Nat) : Bool :=
  0xdc00 ≤ unit && unit < 0xe000

/-- The characters that units denote. A lead and a trail together are one character; neither may stand alone. -/
def characters? : List Nat → Option (List Char)
  | [] => some []
  | [unit] => if isLead unit || isTrail unit then none else some [Char.ofNat unit]
  | first :: second :: units =>
    if isTrail first then none
    else if isLead first then
      if isTrail second then
        (characters? units).map (Char.ofNat (0x10000 + (first - 0xd800) * 0x400 + (second - 0xdc00)) :: ·)
      else none
    else (characters? (second :: units)).map (Char.ofNat first :: ·)

def string? (text : List Char) : Option (Option String × List Char) := do
  let (units, rest) ← units? text
  return ((characters? units).map String.ofList, rest)

def object (fields : List (Option String × Json)) : Json :=
  match fields.mapM fun field => field.1.map (·, field.2) with
  | some named => obj named
  | none => other

mutual

/-- Reads a value. `fuel` bounds the nesting and the number of items, each of which takes a character at least. -/
def value? : (fuel : Nat) → List Char → Option (Json × List Char)
  | 0, _ => none
  | fuel + 1, text =>
    match skipBlanks text with
    | 'n' :: 'u' :: 'l' :: 'l' :: rest => some (null, rest)
    | 't' :: 'r' :: 'u' :: 'e' :: rest => some (bool true, rest)
    | 'f' :: 'a' :: 'l' :: 's' :: 'e' :: rest => some (bool false, rest)
    | '"' :: rest => do
      let (text, rest) ← string? rest
      return (text.elim other str, rest)
    | '[' :: rest =>
      match skipBlanks rest with
      | ']' :: rest => some (arr [], rest)
      | rest => do
        let (items, rest) ← items? fuel rest
        return (arr items, rest)
    | '{' :: rest =>
      match skipBlanks rest with
      | '}' :: rest => some (obj [], rest)
      | rest => do
        let (fields, rest) ← fields? fuel rest
        return (object fields, rest)
    | text => number? text

def items? : (fuel : Nat) → List Char → Option (List Json × List Char)
  | 0, _ => none
  | fuel + 1, text => do
    let (item, rest) ← value? fuel text
    match skipBlanks rest with
    | ']' :: rest => return ([item], rest)
    | ',' :: rest => do
      let (items, rest) ← items? fuel rest
      return (item :: items, rest)
    | _ => none

def fields? : (fuel : Nat) → List Char → Option (List (Option String × Json) × List Char)
  | 0, _ => none
  | fuel + 1, text =>
    match skipBlanks text with
    | '"' :: rest => do
      let (name, rest) ← string? rest
      match skipBlanks rest with
      | ':' :: rest => do
        let (value, rest) ← value? fuel rest
        match skipBlanks rest with
        | '}' :: rest => return ([(name, value)], rest)
        | ',' :: rest => do
          let (fields, rest) ← fields? fuel rest
          return ((name, value) :: fields, rest)
        | _ => none
      | _ => none
    | _ => none

end

end Reader

def ofText? (text : String) : Option Json := do
  let chars := text.toList
  let (value, rest) ← Reader.value? (2 * chars.length + 2) chars
  if Reader.skipBlanks rest = [] then some value else none

end DspAsm.Json
