import DspAsm.Command.Binary
import DspAsm.Symbol.Scope

namespace DspAsm
open CodeTable (ofName?)

def operand {α : Type} [CodeTable α] (mnemonic : String) (role : Role) (text : String) : Except Fault α :=
  match ofName? text with
  | some value => .ok value
  | none => .error (.malformed mnemonic (.isNot text role))

def bounded (mnemonic : String) (least most value : Int) : Except Fault Int :=
  if value < least ∨ most < value then .error (.malformed mnemonic (.outOfRange value least most))
  else .ok value

def strayOperands (tokens : List String) : Fault :=
  .malformed (tokens.headD "") (.strayOperands (tokens.length - 1))

def notForSlot (slot : Slot) (role : Role) : List String → Fault
  | [] => .malformed "" (.empty slot)
  | mnemonic :: operands =>
    .malformed mnemonic (.isNot (" ".intercalate (mnemonic :: operands)) role)

def parseLone {Op : Type} [CodeTable Op] (role : Role) (stray : List String → Fault) :
    List String → Except Fault Op
  | [mnemonic] =>
    match ofName? mnemonic with
    | some op => .ok op
    | none => .error (.malformed mnemonic (.wrongKind role))
  | tokens => .error (stray tokens)

def AluOp.parse : List String → Except Fault AluOp :=
  parseLone .aluCommand fun tokens => .malformed (tokens.headD "") (.operandCount 0 (tokens.length - 1))

def XBus.parse : List String → Except Fault XBus
  | ["NOP"] => .ok nop
  | ["MOV", "MUL", "P"] => .ok movMulP
  | ["MOV", source, "P"] => (operand "MOV" .xySource source).map movSrcP
  | ["MOV", source, "X"] => (operand "MOV" .xySource source).map movSrcX
  | tokens => .error (notForSlot .xBus .xBusCommand tokens)

def YBus.parse : List String → Except Fault YBus
  | ["NOP"] => .ok nop
  | ["CLR", "A"] => .ok clrA
  | ["MOV", "ALU", "A"] => .ok movAluA
  | ["MOV", source, "A"] => (operand "MOV" .xySource source).map movSrcA
  | ["MOV", source, "Y"] => (operand "MOV" .xySource source).map movSrcY
  | tokens => .error (notForSlot .yBus .yBusCommand tokens)

/-- Operands that name registers, and so never a constant. -/
def isRegisterName (text : String) : Bool :=
  ["A", "P", "X", "Y", "ALU", "MUL", "PC"].contains text ||
    (ofName? text : Option XySource).isSome || (ofName? text : Option D1Destination).isSome

namespace D1Bus

def parseSource (scope : Scope) (source : String) (destination : D1Destination) : Except Fault D1Bus :=
  match ofName? source with
  | some register => .ok (movSrc register destination)
  | none =>
    if isRegisterName source then .error (.malformed "MOV" (.isNot source .d1Source))
    else do
      let value ← bounded "MOV" 0 255 (← scope.constantValue source)
      return movImm (UInt8.ofNat value.toNat) destination

def parse (scope : Scope) : List String → Except Fault D1Bus
  | ["NOP"] => .ok nop
  | ["MOV", source, destination] => do
    parseSource scope source (← operand "MOV" .d1Destination destination)
  | tokens => .error (notForSlot .d1Bus .d1BusCommand tokens)

end D1Bus

def EndOp.parse : List String → Except Fault EndOp :=
  parseLone .endCommand strayOperands

def LoopOp.parse : List String → Except Fault LoopOp :=
  parseLone .loopCommand strayOperands

namespace Dma

def parseHold : String → Except Fault Bool
  | "DMA" => .ok false
  | "DMAH" => .ok true
  | mnemonic => .error (.malformed mnemonic (.wrongKind .dmaCommand))

def parseEnds (mnemonic origin goal : String) : Except Fault (DmaDirection × String) :=
  if origin = "D0" then .ok (.d0ToRam, goal)
  else if goal = "D0" then .ok (.ramToD0, origin)
  else .error (.malformed mnemonic .noExternalEnd)

def parseCount (scope : Scope) (mnemonic count : String) : Except Fault DmaCount :=
  match ofName? count with
  | some counter => .ok (.referenced counter)
  | none => do
    let value ← bounded mnemonic 0 255 (← scope.constantValue count)
    return .immediate (UInt8.ofNat value.toNat)

def parse (scope : Scope) : List String → Except Fault Dma
  | [mnemonic, origin, goal, length] => do
    let hold ← parseHold mnemonic
    let (direction, inner) ← parseEnds mnemonic origin goal
    let pointer ← operand mnemonic .dmaPointer inner
    if pointer = .prg ∧ direction = .ramToD0 then
      throw (.malformed mnemonic .programRamSource)
    let count ← parseCount scope mnemonic length
    return { hold, addMode := plainAddMode, direction, pointer, count }
  | tokens => .error (strayOperands tokens)

end Dma

def parseCondition (mnemonic : String) : Option String → Except Fault (Option Condition)
  | none => .ok none
  | some text => (operand mnemonic .condition text).map some

namespace Mvi

/-- Reads the operands of a load. Only a load of `PC` may name a label, and no other load does. -/
def parseOperands (scope : Scope) (value destination : String) (condition : Option String) :
    Except Fault Mvi := do
  let destination ← operand "MVI" .mviDestination destination
  let condition ← parseCondition "MVI" condition
  let value ← if destination = .pc then scope.labelValue value else scope.constantValue value
  let half : Int := if condition.isSome then 0x40000 else 0x1000000
  let immediate ← bounded "MVI" (-half) (half - 1) value
  return ⟨destination, immediate, condition⟩

def parse (scope : Scope) : List String → Except Fault Mvi
  | ["MVI", value, destination] => parseOperands scope value destination none
  | ["MVI", value, destination, condition] => parseOperands scope value destination (some condition)
  | tokens =>
    if tokens ≠ [] ∧ tokens.head? ≠ some "MVI" then
      .error (.malformed (tokens.headD "") (.wrongKind .mviCommand))
    else .error (strayOperands tokens)

end Mvi

namespace Jump

def parseOperands (scope : Scope) (condition : Option String) (target : String) : Except Fault Jump := do
  let condition ← parseCondition "JMP" condition
  let target ← bounded "JMP" 0 127 (← scope.labelValue target)
  return ⟨condition, UInt8.ofNat target.toNat⟩

def parse (scope : Scope) : List String → Except Fault Jump
  | ["JMP", target] => parseOperands scope none target
  | ["JMP", condition, target] => parseOperands scope (some condition) target
  | tokens =>
    if tokens ≠ [] ∧ tokens.head? ≠ some "JMP" then
      .error (.malformed (tokens.headD "") (.wrongKind .jumpCommand))
    else .error (strayOperands tokens)

end Jump

end DspAsm
