import DspAsm.Code.Table

namespace DspAsm

inductive XySource where
  | ram0 | ram1 | ram2 | ram3 | mc0 | mc1 | mc2 | mc3
  deriving DecidableEq

instance : CodeTable XySource where
  family := "X/Y-bus source"
  width := 3
  all := [.ram0, .ram1, .ram2, .ram3, .mc0, .mc1, .mc2, .mc3]
  bits
    | .ram0 => 0b000 | .ram1 => 0b001 | .ram2 => 0b010 | .ram3 => 0b011 | .mc0 => 0b100
    | .mc1 => 0b101 | .mc2 => 0b110 | .mc3 => 0b111
  name
    | .ram0 => "RAM0" | .ram1 => "RAM1" | .ram2 => "RAM2" | .ram3 => "RAM3" | .mc0 => "MC0"
    | .mc1 => "MC1" | .mc2 => "MC2" | .mc3 => "MC3"

inductive D1Source where
  | ram0 | ram1 | ram2 | ram3 | mc0 | mc1 | mc2 | mc3 | all | alh
  deriving DecidableEq

instance : CodeTable D1Source where
  family := "D1-bus source"
  width := 4
  all := [.ram0, .ram1, .ram2, .ram3, .mc0, .mc1, .mc2, .mc3, .all, .alh]
  bits
    | .ram0 => 0b0000 | .ram1 => 0b0001 | .ram2 => 0b0010 | .ram3 => 0b0011 | .mc0 => 0b0100
    | .mc1 => 0b0101 | .mc2 => 0b0110 | .mc3 => 0b0111 | .all => 0b1001 | .alh => 0b1010
  name
    | .ram0 => "RAM0" | .ram1 => "RAM1" | .ram2 => "RAM2" | .ram3 => "RAM3" | .mc0 => "MC0"
    | .mc1 => "MC1" | .mc2 => "MC2" | .mc3 => "MC3" | .all => "ALL" | .alh => "ALH"

inductive D1Destination where
  | mc0 | mc1 | mc2 | mc3 | rx | pl | ra0 | wa0 | lop | top | ct0 | ct1 | ct2 | ct3
  deriving DecidableEq

instance : CodeTable D1Destination where
  family := "D1-bus destination"
  width := 4
  all := [.mc0, .mc1, .mc2, .mc3, .rx, .pl, .ra0, .wa0, .lop, .top, .ct0, .ct1, .ct2, .ct3]
  bits
    | .mc0 => 0b0000 | .mc1 => 0b0001 | .mc2 => 0b0010 | .mc3 => 0b0011 | .rx => 0b0100
    | .pl => 0b0101 | .ra0 => 0b0110 | .wa0 => 0b0111 | .lop => 0b1010 | .top => 0b1011
    | .ct0 => 0b1100 | .ct1 => 0b1101 | .ct2 => 0b1110 | .ct3 => 0b1111
  name
    | .mc0 => "MC0" | .mc1 => "MC1" | .mc2 => "MC2" | .mc3 => "MC3" | .rx => "RX" | .pl => "PL"
    | .ra0 => "RA0" | .wa0 => "WA0" | .lop => "LOP" | .top => "TOP" | .ct0 => "CT0" | .ct1 => "CT1"
    | .ct2 => "CT2" | .ct3 => "CT3"

inductive DmaPointer where
  | mc0 | mc1 | mc2 | mc3 | prg
  deriving DecidableEq

instance : CodeTable DmaPointer where
  family := "DMA RAM pointer"
  width := 3
  all := [.mc0, .mc1, .mc2, .mc3, .prg]
  bits
    | .mc0 => 0b000 | .mc1 => 0b001 | .mc2 => 0b010 | .mc3 => 0b011 | .prg => 0b100
  name
    | .mc0 => "MC0" | .mc1 => "MC1" | .mc2 => "MC2" | .mc3 => "MC3" | .prg => "PRG"

inductive DmaCounter where
  | mc0 | mc1 | mc2 | mc3 | ct0 | ct1 | ct2 | ct3
  deriving DecidableEq

instance : CodeTable DmaCounter where
  family := "DMA counter RAM"
  width := 3
  all := [.mc0, .mc1, .mc2, .mc3, .ct0, .ct1, .ct2, .ct3]
  bits
    | .mc0 => 0b000 | .mc1 => 0b001 | .mc2 => 0b010 | .mc3 => 0b011 | .ct0 => 0b100 | .ct1 => 0b101
    | .ct2 => 0b110 | .ct3 => 0b111
  name
    | .mc0 => "MC0" | .mc1 => "MC1" | .mc2 => "MC2" | .mc3 => "MC3" | .ct0 => "CT0" | .ct1 => "CT1"
    | .ct2 => "CT2" | .ct3 => "CT3"

inductive MviDestination where
  | mc0 | mc1 | mc2 | mc3 | rx | pl | ra0 | wa0 | lop | pc
  deriving DecidableEq

instance : CodeTable MviDestination where
  family := "MVI destination"
  width := 4
  all := [.mc0, .mc1, .mc2, .mc3, .rx, .pl, .ra0, .wa0, .lop, .pc]
  bits
    | .mc0 => 0b0000 | .mc1 => 0b0001 | .mc2 => 0b0010 | .mc3 => 0b0011 | .rx => 0b0100
    | .pl => 0b0101 | .ra0 => 0b0110 | .wa0 => 0b0111 | .lop => 0b1010 | .pc => 0b1100
  name
    | .mc0 => "MC0" | .mc1 => "MC1" | .mc2 => "MC2" | .mc3 => "MC3" | .rx => "RX" | .pl => "PL"
    | .ra0 => "RA0" | .wa0 => "WA0" | .lop => "LOP" | .pc => "PC"

end DspAsm
