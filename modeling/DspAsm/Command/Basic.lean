import DspAsm.Code.Condition
import DspAsm.Code.Operation
import DspAsm.Code.Register

namespace DspAsm

inductive XBus where
  | nop
  | movMulP
  | movSrcP (source : XySource)
  | movSrcX (source : XySource)
  | movSrcXMulP (source : XySource)
  deriving DecidableEq

inductive YBus where
  | nop
  | clrA
  | movAluA
  | movSrcA (source : XySource)
  | movSrcY (source : XySource)
  | movSrcYAluA (source : XySource)
  deriving DecidableEq

inductive D1Bus where
  | nop
  | movImm (immediate : UInt8) (destination : D1Destination)
  | movSrc (source : D1Source) (destination : D1Destination)
  deriving DecidableEq

inductive DmaCount where
  | immediate (length : UInt8)
  | referenced (counter : DmaCounter)
  deriving DecidableEq

structure Dma where
  hold : Bool
  /-- How the external address moves on. Mode one is the only one in use. -/
  addMode : UInt8
  direction : DmaDirection
  pointer : DmaPointer
  count : DmaCount
  deriving DecidableEq

structure Mvi where
  destination : MviDestination
  immediate : Int
  condition : Option Condition
  deriving DecidableEq

structure Jump where
  condition : Option Condition
  target : UInt8
  deriving DecidableEq

inductive Special where
  | stop (op : EndOp)
  | loop (op : LoopOp)
  | dma (command : Dma)
  | mvi (command : Mvi)
  | jump (command : Jump)
  deriving DecidableEq

inductive Command where
  | alu (op : AluOp)
  | xBus (command : XBus)
  | yBus (command : YBus)
  | d1Bus (command : D1Bus)
  | special (command : Special)
  deriving DecidableEq

/-- What the X bus and the Y bus do in one cycle: a move of one kind and another command, in either order. -/
def mergePair? {α : Type} [DecidableEq α] (moved? : α → Option XySource) (other : α) (both : XySource → α)
    (first second : α) : Option α :=
  if second = other then (moved? first).map both
  else if first = other then (moved? second).map both
  else none

namespace XBus

def op : XBus → XOp
  | nop => .nop
  | movMulP => .movMulP
  | movSrcP _ => .movSrcP
  | movSrcX _ => .movSrcX
  | movSrcXMulP _ => .movSrcXMulP

def source? : XBus → Option XySource
  | nop | movMulP => none
  | movSrcP source | movSrcX source | movSrcXMulP source => some source

/-- The command with an operation, or what makes it from a source. -/
def ofOp : XOp → XBus ⊕ (XySource → XBus)
  | .nop => .inl nop
  | .movMulP => .inl movMulP
  | .movSrcP => .inr movSrcP
  | .movSrcX => .inr movSrcX
  | .movSrcXMulP => .inr movSrcXMulP

def movedToX? : XBus → Option XySource
  | movSrcX source => some source
  | _ => none

def merge? : XBus → XBus → Option XBus :=
  mergePair? movedToX? movMulP movSrcXMulP

end XBus

namespace YBus

def op : YBus → YOp
  | nop => .nop
  | clrA => .clrA
  | movAluA => .movAluA
  | movSrcA _ => .movSrcA
  | movSrcY _ => .movSrcY
  | movSrcYAluA _ => .movSrcYAluA

def source? : YBus → Option XySource
  | nop | clrA | movAluA => none
  | movSrcA source | movSrcY source | movSrcYAluA source => some source

def ofOp : YOp → YBus ⊕ (XySource → YBus)
  | .nop => .inl nop
  | .clrA => .inl clrA
  | .movAluA => .inl movAluA
  | .movSrcA => .inr movSrcA
  | .movSrcY => .inr movSrcY
  | .movSrcYAluA => .inr movSrcYAluA

def movedToY? : YBus → Option XySource
  | movSrcY source => some source
  | _ => none

def merge? : YBus → YBus → Option YBus :=
  mergePair? movedToY? movAluA movSrcYAluA

end YBus

def D1Bus.op : D1Bus → D1Op
  | nop => .nop
  | movImm _ _ => .movImmDst
  | movSrc _ _ => .movSrcDst

namespace Dma

def plainAddMode : UInt8 := 1

def countMode (command : Dma) : DmaCountMode :=
  match command.count with
  | .immediate _ => .immediate
  | .referenced _ => .referenced

def mnemonic (command : Dma) : String :=
  if command.hold then "DMAH" else "DMA"

end Dma

namespace Mvi

/-- The number of bits of the immediate. A condition takes the place of six of them. -/
def immediateWidth (command : Mvi) : Nat :=
  if command.condition.isSome then 19 else 25

/-- The index of program RAM that the command goes to. A load of `PC` with a negative immediate goes to none. -/
def target? (command : Mvi) : Option Nat :=
  if command.destination = .pc ∧ 0 ≤ command.immediate then some command.immediate.toNat else none

end Mvi

def Special.target? : Special → Option Nat
  | jump command => some command.target.toNat
  | mvi command => command.target?
  | stop _ | loop _ | dma _ => none

inductive Slot where
  | alu | xBus | yBus | d1Bus | special
  deriving DecidableEq

def Slot.name : Slot → String
  | alu => "ALU"
  | xBus => "X-bus"
  | yBus => "Y-bus"
  | d1Bus => "D1-bus"
  | special => "special"

def Command.slot : Command → Slot
  | alu _ => .alu
  | xBus _ => .xBus
  | yBus _ => .yBus
  | d1Bus _ => .d1Bus
  | special _ => .special

end DspAsm
