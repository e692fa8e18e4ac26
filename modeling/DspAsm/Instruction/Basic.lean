import DspAsm.Command.Binary
import DspAsm.Word.Bits

namespace DspAsm

structure Slots where
  alu : AluOp := .nop
  xBus : XBus := .nop
  yBus : YBus := .nop
  d1Bus : D1Bus := .nop
  deriving DecidableEq

inductive Instruction where
  | compound (slots : Slots)
  | special (command : Special)
  deriving DecidableEq

namespace Slots

def aluField : Field := ⟨26, 4⟩
def xBusField : Field := ⟨20, 6⟩
def yBusField : Field := ⟨14, 6⟩
def d1BusField : Field := ⟨0, 14⟩

def encode (slots : Slots) : Nat :=
  aluField.put (CodeTable.bits slots.alu) + xBusField.put slots.xBus.encode +
    yBusField.put slots.yBus.encode + d1BusField.put slots.d1Bus.encode

/-- Reads the four slots of a word. Its two highest bits are not looked at. -/
def decode (word : Nat) : Except Fault Slots := do
  let alu ← CodeTable.decode (aluField.get word)
  let xBus ← XBus.decode (xBusField.get word)
  let yBus ← YBus.decode (yBusField.get word)
  let d1Bus ← D1Bus.decode (d1BusField.get word)
  return { alu, xBus, yBus, d1Bus }

def phrases (slots : Slots) : List Phrase :=
  [[CodeTable.name slots.alu]] ++ slots.xBus.phrases ++ slots.yBus.phrases ++ [slots.d1Bus.phrase]

end Slots

namespace Instruction

def nop : Instruction := compound {}

def encode : Instruction → Nat
  | compound slots => slots.encode
  | special command => command.encode

def toWord (instruction : Instruction) : Word :=
  UInt32.ofNat instruction.encode

def decode (word : Nat) : Except Fault Instruction :=
  let top2 := (⟨30, 2⟩ : Field).get word
  let top4 := (⟨28, 4⟩ : Field).get word
  let top5 := (⟨27, 5⟩ : Field).get word
  if top2 = 0b00 then (Slots.decode word).map compound
  else if top5 = 0b11110 ∨ top5 = 0b11111 then (Lone.decode word).map fun op => special (.stop op)
  else if top5 = 0b11100 ∨ top5 = 0b11101 then (Lone.decode word).map fun op => special (.loop op)
  else if top4 = Dma.opcode then (Dma.decode word).map fun command => special (.dma command)
  else if top2 = Mvi.opcode then (Mvi.decode word).map fun command => special (.mvi command)
  else if top4 = Jump.opcode then (Jump.decode word).map fun command => special (.jump command)
  else .error (.unknownFormat word)

def ofWord (word : Word) : Except Fault Instruction :=
  decode word.toNat

def ofBits (bits : List Bool) : Except Fault Instruction :=
  if bits.length = 32 then ofWord (Word.ofBits bits) else .error (.instructionLength bits.length)

def phrases : Instruction → List Phrase
  | compound slots => slots.phrases
  | special command => [command.phrase]

def target? : Instruction → Option Nat
  | compound _ => none
  | special command => command.target?

end Instruction

end DspAsm
