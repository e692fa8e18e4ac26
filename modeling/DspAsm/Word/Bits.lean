namespace DspAsm

abbrev Word := UInt32

def toBits : (width : Nat) → Nat → List Bool
  | 0, _ => []
  | width + 1, value => value.testBit width :: toBits width value

def ofBits (bits : List Bool) : Nat :=
  bits.foldl (fun value bit => 2 * value + bit.toNat) 0

namespace Word

def toBits (word : Word) : List Bool :=
  DspAsm.toBits 32 word.toNat

def toBytes (word : Word) : List UInt8 :=
  [24, 16, 8, 0].map fun low => UInt8.ofNat (word.toNat >>> low)

def ofBits (bits : List Bool) : Word :=
  UInt32.ofNat (DspAsm.ofBits bits)

def takeStream : (count : Nat) → List Bool → List Word
  | 0, _ => []
  | count + 1, bits => ofBits (bits.take 32) :: takeStream count (bits.drop 32)

end Word

def bytesToBits (bytes : List UInt8) : List Bool :=
  bytes.flatMap fun byte => toBits 8 byte.toNat

end DspAsm
