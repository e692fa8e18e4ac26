import DspAsm.Code.Table

/-!
Conditions on the flags Z, S, C and T0.

A pattern has six bits: the highest says whether the flags must be set or clear, the others which flags are
asked. In a jump a seventh bit in front says that there is a condition at all.
-/

namespace DspAsm

inductive Condition where
  | nz | ns | nzs | nc | nt0 | z | s | zs | c | t0
  deriving DecidableEq

instance : CodeTable Condition where
  family := "condition"
  width := 6
  all := [.nz, .ns, .nzs, .nc, .nt0, .z, .s, .zs, .c, .t0]
  bits
    | .nz => 0b000001 | .ns => 0b000010 | .nzs => 0b000011 | .nc => 0b000100 | .nt0 => 0b001000
    | .z => 0b100001 | .s => 0b100010 | .zs => 0b100011 | .c => 0b100100 | .t0 => 0b101000
  name
    | .nz => "NZ" | .ns => "NS" | .nzs => "NZS" | .nc => "NC" | .nt0 => "NT0" | .z => "Z"
    | .s => "S" | .zs => "ZS" | .c => "C" | .t0 => "T0"

namespace Condition

def jumpBits (condition : Condition) : Nat :=
  0b1000000 + CodeTable.bits condition

/-- The condition with a given pattern in a jump. Bits above the seventh are not looked at. -/
def ofJumpBits? (bits : Nat) : Option Condition :=
  if bits / 0b1000000 % 2 = 1 then CodeTable.ofBits? (bits % 0b1000000) else none

end Condition

end DspAsm
