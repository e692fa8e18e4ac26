import DspAsm.Code.Table

namespace DspAsm

inductive D1Op where
  | nop | movImmDst | movSrcDst
  deriving DecidableEq

instance : CodeTable D1Op where
  family := "D1-bus opcode"
  width := 2
  all := [.nop, .movImmDst, .movSrcDst]
  bits
    | .nop => 0b00 | .movImmDst => 0b01 | .movSrcDst => 0b11
  name
    | .nop => "NOP" | .movImmDst => "MOV_IMM_DST" | .movSrcDst => "MOV_SRC_DST"

inductive XOp where
  | nop | movMulP | movSrcP | movSrcX | movSrcXMulP
  deriving DecidableEq

instance : CodeTable XOp where
  family := "X-bus opcode"
  width := 3
  all := [.nop, .movMulP, .movSrcP, .movSrcX, .movSrcXMulP]
  bits
    | .nop => 0b000 | .movMulP => 0b010 | .movSrcP => 0b011 | .movSrcX => 0b100
    | .movSrcXMulP => 0b110
  name
    | .nop => "NOP" | .movMulP => "MOV_MUL_P" | .movSrcP => "MOV_SRC_P" | .movSrcX => "MOV_SRC_X"
    | .movSrcXMulP => "MOV_SRC_X_MUL_P"

inductive YOp where
  | nop | clrA | movAluA | movSrcA | movSrcY | movSrcYAluA
  deriving DecidableEq

instance : CodeTable YOp where
  family := "Y-bus opcode"
  width := 3
  all := [.nop, .clrA, .movAluA, .movSrcA, .movSrcY, .movSrcYAluA]
  bits
    | .nop => 0b000 | .clrA => 0b001 | .movAluA => 0b010 | .movSrcA => 0b011 | .movSrcY => 0b100
    | .movSrcYAluA => 0b110
  name
    | .nop => "NOP" | .clrA => "CLR_A" | .movAluA => "MOV_ALU_A" | .movSrcA => "MOV_SRC_A"
    | .movSrcY => "MOV_SRC_Y" | .movSrcYAluA => "MOV_SRC_Y_ALU_A"

inductive AluOp where
  | nop | and | or | xor | add | sub | ad2 | sr | rr | sl | rl | rl8
  deriving DecidableEq

instance : CodeTable AluOp where
  family := "ALU opcode"
  width := 4
  all := [.nop, .and, .or, .xor, .add, .sub, .ad2, .sr, .rr, .sl, .rl, .rl8]
  bits
    | .nop => 0b0000 | .and => 0b0001 | .or => 0b0010 | .xor => 0b0011 | .add => 0b0100
    | .sub => 0b0101 | .ad2 => 0b0110 | .sr => 0b1000 | .rr => 0b1001 | .sl => 0b1010
    | .rl => 0b1011 | .rl8 => 0b1111
  name
    | .nop => "NOP" | .and => "AND" | .or => "OR" | .xor => "XOR" | .add => "ADD" | .sub => "SUB"
    | .ad2 => "AD2" | .sr => "SR" | .rr => "RR" | .sl => "SL" | .rl => "RL" | .rl8 => "RL8"

inductive EndOp where
  | stop | stopInterrupt
  deriving DecidableEq

instance : CodeTable EndOp where
  family := "end opcode"
  width := 5
  all := [.stop, .stopInterrupt]
  bits
    | .stop => 0b11110 | .stopInterrupt => 0b11111
  name
    | .stop => "END" | .stopInterrupt => "ENDI"

inductive LoopOp where
  | btm | lps
  deriving DecidableEq

instance : CodeTable LoopOp where
  family := "loop opcode"
  width := 5
  all := [.btm, .lps]
  bits
    | .btm => 0b11100 | .lps => 0b11101
  name
    | .btm => "BTM" | .lps => "LPS"

inductive DmaCountMode where
  | immediate | referenced
  deriving DecidableEq

instance : CodeTable DmaCountMode where
  family := "DMA counter mode"
  width := 1
  all := [.immediate, .referenced]
  bits
    | .immediate => 0b0 | .referenced => 0b1
  name
    | .immediate => "IMMEDIATE" | .referenced => "REFERENCED"

inductive DmaDirection where
  | d0ToRam | ramToD0
  deriving DecidableEq

instance : CodeTable DmaDirection where
  family := "DMA direction"
  width := 1
  all := [.d0ToRam, .ramToD0]
  bits
    | .d0ToRam => 0b0 | .ramToD0 => 0b1
  name
    | .d0ToRam => "D0_TO_RAM" | .ramToD0 => "RAM_TO_D0"

end DspAsm
