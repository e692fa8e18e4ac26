import DspAsm.Text.Blank

/-!
Numerals: how operands spell numbers, and how messages and listings print them.

A numeral may carry a `#` in front and then a minus sign. Its digits are decimal, or hexadecimal after
`0x` or `$`, or binary after `0b`. The digits after such a mark may carry a sign of their own, so `-0x-5`
is five. Numbers are those of signed 64-bit arithmetic.
-/

namespace DspAsm.Numeral
open Text

def digitValue (c : Char) : Nat :=
  if c.isDigit then c.toNat - '0'.toNat else c.toUpper.toNat - 'A'.toNat + 10

def isDigit (base : Nat) (c : Char) : Bool :=
  c.isAlphanum && digitValue c < base

def ofDigits (base : Nat) (digits : List Char) : Nat :=
  digits.foldl (fun value c => base * value + digitValue c) 0

def magnitude? (base : Nat) (digits : List Char) : Option Nat :=
  if digits ≠ [] ∧ digits.all (isDigit base) then some (ofDigits base digits) else none

def inRange (value : Int) : Bool :=
  -0x8000000000000000 ≤ value && value < 0x8000000000000000

def signed? (base : Nat) : List Char → Option Int
  | '-' :: digits => (magnitude? base digits).map fun value => -(value : Int)
  | '+' :: digits => (magnitude? base digits).map fun value => (value : Int)
  | digits => (magnitude? base digits).map fun value => (value : Int)

/-- Reads a numeral past its leading `#` and minus sign. Decimal digits take no sign of their own. -/
def unmarked? : List Char → Option Int
  | '0' :: 'x' :: digits => signed? 16 digits
  | '0' :: 'X' :: digits => signed? 16 digits
  | '$' :: digits => signed? 16 digits
  | '0' :: 'b' :: digits => signed? 2 digits
  | '0' :: 'B' :: digits => signed? 2 digits
  | digits => (magnitude? 10 digits).map fun value => (value : Int)

/-- The opposite in signed 64-bit arithmetic, where the least number is its own opposite. -/
def opposite (value : Int) : Int :=
  Int.bmod (-value) 0x10000000000000000

def dropHash : List Char → List Char
  | '#' :: text => text
  | text => text

def read? (text : String) : Option Int :=
  match dropHash (trim text.toList) with
  | '-' :: digits => ((unmarked? digits).filter inRange).map opposite
  | digits => (unmarked? digits).filter inRange

def hex (width value : Nat) : String :=
  String.ofList ((Nat.toDigits 16 value).leftpad width '0')

def upperHex (width value : Nat) : String :=
  String.ofList (((Nat.toDigits 16 value).map Char.toUpper).leftpad width '0')

def hexWord (value : Nat) : String :=
  "0x" ++ hex 8 value

def binary (value : Nat) : String :=
  "0b" ++ String.ofList (Nat.toDigits 2 value)

end DspAsm.Numeral
