import DspAsm.Fault
import DspAsm.Word.Field

namespace DspAsm

namespace CodeTable

variable {α : Type} [CodeTable α]

def decode (pattern : Nat) : Except Fault α :=
  match ofBits? pattern with
  | some value => .ok value
  | none => .error (.unknownPattern (family α) pattern)

def ofName (text : String) : Except Fault α :=
  match ofName? text with
  | some value => .ok value
  | none => .error (.unknownMnemonic text)

end CodeTable

def Condition.decodeJump (pattern : Nat) : Except Fault Condition :=
  match ofJumpBits? pattern with
  | some condition => .ok condition
  | none => .error (.unknownPattern "jump condition" pattern)

namespace Move

/-! A command of the X bus or the Y bus is an operation, and a source if the operation moves one. -/

variable {Op α : Type} [CodeTable Op]

def width : Nat := 6

def opField : Field := ⟨3, 3⟩
def sourceField : Field := ⟨0, 3⟩

def encode (op : Op) (source? : Option XySource) : Nat :=
  opField.put (CodeTable.bits op) + sourceField.put (source?.elim 0 CodeTable.bits)

def decode (ofOp : Op → α ⊕ (XySource → α)) (bits : Nat) : Except Fault α := do
  match ofOp (← CodeTable.decode (opField.get bits)) with
  | .inl command => return command
  | .inr move => return move (← CodeTable.decode (sourceField.get bits))

end Move

def XBus.encode (command : XBus) : Nat :=
  Move.encode command.op command.source?

def XBus.decode : Nat → Except Fault XBus :=
  Move.decode ofOp

def YBus.encode (command : YBus) : Nat :=
  Move.encode command.op command.source?

def YBus.decode : Nat → Except Fault YBus :=
  Move.decode ofOp

namespace D1Bus

def width : Nat := 14

def opField : Field := ⟨12, 2⟩
def destinationField : Field := ⟨8, 4⟩
def immediateField : Field := ⟨0, 8⟩
def sourceField : Field := ⟨0, 4⟩

def encode (command : D1Bus) : Nat :=
  opField.put (CodeTable.bits command.op) +
    match command with
    | nop => 0
    | movImm immediate destination =>
      destinationField.put (CodeTable.bits destination) + immediateField.put immediate.toNat
    | movSrc source destination =>
      destinationField.put (CodeTable.bits destination) + sourceField.put (CodeTable.bits source)

/-- Reads a command. A source is looked at before the destination. -/
def decode (bits : Nat) : Except Fault D1Bus := do
  match ← CodeTable.decode (opField.get bits) with
  | D1Op.nop => return nop
  | .movImmDst =>
    let destination ← CodeTable.decode (destinationField.get bits)
    return movImm (UInt8.ofNat (immediateField.get bits)) destination
  | .movSrcDst =>
    let source ← CodeTable.decode (sourceField.get bits)
    let destination ← CodeTable.decode (destinationField.get bits)
    return movSrc source destination

end D1Bus

namespace Lone

/-! An instruction that ends or loops is its operation, in the highest bits. -/

variable {Op : Type} [CodeTable Op]

def opField : Field := ⟨27, 5⟩

def encode (op : Op) : Nat :=
  opField.put (CodeTable.bits op)

def decode (bits : Nat) : Except Fault Op :=
  CodeTable.decode (opField.get bits)

end Lone

namespace Dma

def opcode : Nat := 0b1100

def opcodeField : Field := ⟨28, 4⟩
def paddingField : Field := ⟨18, 10⟩
def addModeField : Field := ⟨15, 3⟩
def holdField : Field := ⟨14, 1⟩
def countModeField : Field := ⟨13, 1⟩
def directionField : Field := ⟨12, 1⟩
def pointerField : Field := ⟨8, 3⟩
def lengthField : Field := ⟨0, 8⟩
def counterField : Field := ⟨5, 3⟩

def encodeCount : DmaCount → Nat
  | .immediate length => lengthField.put length.toNat
  | .referenced counter => counterField.put (CodeTable.bits counter)

def encode (command : Dma) : Nat :=
  opcodeField.put opcode +
    addModeField.put (command.addMode.toNat % 8) +
    holdField.put command.hold.toNat +
    countModeField.put (CodeTable.bits command.countMode) +
    directionField.put (CodeTable.bits command.direction) +
    pointerField.put (CodeTable.bits command.pointer) +
    encodeCount command.count

def decodeCount (bits : Nat) : Except Fault DmaCount := do
  match ← CodeTable.decode (countModeField.get bits) with
  | DmaCountMode.immediate => return .immediate (UInt8.ofNat (lengthField.get bits))
  | .referenced => return .referenced (← CodeTable.decode (counterField.get bits))

/-- Reads a transfer. Program RAM is known as a pointer only where it is written. -/
def decode (bits : Nat) : Except Fault Dma := do
  if opcodeField.get bits ≠ opcode then
    throw (.unknownPattern "DMA opcode" (opcodeField.get bits))
  if paddingField.get bits ≠ 0 then
    throw (.padding "DMA" bits)
  if addModeField.get bits ≠ plainAddMode.toNat then
    throw (.unknownPattern "DMA address-add mode" (addModeField.get bits))
  let direction ← CodeTable.decode (directionField.get bits)
  let pointer ← CodeTable.decode (pointerField.get bits)
  if pointer = .prg ∧ direction = .ramToD0 then
    throw (.unknownPattern (CodeTable.family DmaPointer) (CodeTable.bits pointer))
  let count ← decodeCount bits
  return { hold := holdField.get bits = 1, addMode := plainAddMode, direction, pointer, count }

end Dma

namespace Mvi

def opcode : Nat := 0b10

def opcodeField : Field := ⟨30, 2⟩
def destinationField : Field := ⟨26, 4⟩
def conditionalField : Field := ⟨25, 1⟩
def conditionField : Field := ⟨19, 6⟩
def longField : Field := ⟨0, 25⟩
def shortField : Field := ⟨0, 19⟩

def encode (command : Mvi) : Nat :=
  opcodeField.put opcode +
    destinationField.put (CodeTable.bits command.destination) +
    match command.condition with
    | none => longField.put (lowBits 25 command.immediate)
    | some condition =>
      conditionalField.put 1 + conditionField.put (CodeTable.bits condition) +
        shortField.put (lowBits 19 command.immediate)

def decode (bits : Nat) : Except Fault Mvi := do
  if opcodeField.get bits ≠ opcode then
    throw (.unknownPattern "MVI opcode" (opcodeField.get bits))
  let destination ← CodeTable.decode (destinationField.get bits)
  if conditionalField.get bits = 1 then
    let condition ← CodeTable.decode (conditionField.get bits)
    return ⟨destination, signedValue 19 (shortField.get bits), some condition⟩
  else
    return ⟨destination, signedValue 25 (longField.get bits), none⟩

end Mvi

namespace Jump

def opcode : Nat := 0b1101

def opcodeField : Field := ⟨28, 4⟩
def highPaddingField : Field := ⟨26, 2⟩
def conditionField : Field := ⟨19, 7⟩
def lowPaddingField : Field := ⟨7, 12⟩
def targetField : Field := ⟨0, 7⟩

def encode (command : Jump) : Nat :=
  opcodeField.put opcode +
    conditionField.put (command.condition.elim 0 Condition.jumpBits) +
    targetField.put command.target.toNat

def decodeCondition (pattern : Nat) : Except Fault (Option Condition) :=
  if pattern = 0 then .ok none else (Condition.decodeJump pattern).map some

def decode (bits : Nat) : Except Fault Jump := do
  if opcodeField.get bits ≠ opcode then
    throw (.unknownPattern "JMP opcode" (opcodeField.get bits))
  if highPaddingField.get bits ≠ 0 ∨ lowPaddingField.get bits ≠ 0 then
    throw (.padding "JMP" bits)
  let condition ← decodeCondition (conditionField.get bits)
  return ⟨condition, UInt8.ofNat (targetField.get bits)⟩

end Jump

def Special.encode : Special → Nat
  | stop op => Lone.encode op
  | loop op => Lone.encode op
  | dma command => command.encode
  | mvi command => command.encode
  | jump command => command.encode

end DspAsm
