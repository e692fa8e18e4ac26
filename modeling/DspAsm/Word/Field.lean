namespace DspAsm

/-- Where a field stands in a word: the position of its lowest bit and its number of bits. -/
structure Field where
  low : Nat
  width : Nat

namespace Field

def get (field : Field) (word : Nat) : Nat :=
  (word >>> field.low) % (1 <<< field.width)

/-- `value` moved to the place of the field. A value with more bits than the field reaches beyond it. -/
def put (field : Field) (value : Nat) : Nat :=
  value <<< field.low

end Field

def signedValue (width bits : Nat) : Int :=
  Int.bmod bits (1 <<< width)

def lowBits (width : Nat) (value : Int) : Nat :=
  (value % ((1 <<< width : Nat) : Int)).toNat

end DspAsm
