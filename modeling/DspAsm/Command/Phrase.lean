import DspAsm.Command.Basic

namespace DspAsm

abbrev Phrase := List String

def Phrase.text : Phrase → String
  | [] => ""
  | [mnemonic] => mnemonic
  | mnemonic :: operands => mnemonic ++ " " ++ ",".intercalate operands

open CodeTable (name)

def XBus.phrases : XBus → List Phrase
  | nop => [["NOP"]]
  | movMulP => [["MOV", "MUL", "P"]]
  | movSrcP source => [["MOV", name source, "P"]]
  | movSrcX source => [["MOV", name source, "X"]]
  | movSrcXMulP source => [["MOV", name source, "X"], ["MOV", "MUL", "P"]]

def YBus.phrases : YBus → List Phrase
  | nop => [["NOP"]]
  | clrA => [["CLR", "A"]]
  | movAluA => [["MOV", "ALU", "A"]]
  | movSrcA source => [["MOV", name source, "A"]]
  | movSrcY source => [["MOV", name source, "Y"]]
  | movSrcYAluA source => [["MOV", name source, "Y"], ["MOV", "ALU", "A"]]

def D1Bus.phrase : D1Bus → Phrase
  | nop => ["NOP"]
  | movImm immediate destination => ["MOV", "#" ++ toString immediate.toNat, name destination]
  | movSrc source destination => ["MOV", name source, name destination]

def DmaCount.text : DmaCount → String
  | immediate length => toString length.toNat
  | referenced counter => name counter

def Dma.phrase (command : Dma) : Phrase :=
  match command.direction with
  | .d0ToRam => [command.mnemonic, "D0", name command.pointer, command.count.text]
  | .ramToD0 => [command.mnemonic, name command.pointer, "D0", command.count.text]

def Mvi.phraseWith (command : Mvi) (operand : String) : Phrase :=
  match command.condition with
  | none => ["MVI", operand, name command.destination]
  | some condition => ["MVI", operand, name command.destination, name condition]

def Mvi.phrase (command : Mvi) : Phrase :=
  command.phraseWith ("#" ++ toString command.immediate)

def Jump.phraseWith (command : Jump) (operand : String) : Phrase :=
  match command.condition with
  | none => ["JMP", operand]
  | some condition => ["JMP", name condition, operand]

def Jump.phrase (command : Jump) : Phrase :=
  command.phraseWith (toString command.target.toNat)

def Special.phrase : Special → Phrase
  | stop op => [name op]
  | loop op => [name op]
  | dma command => command.phrase
  | mvi command => command.phrase
  | jump command => command.phrase

def Command.phrases : Command → List Phrase
  | alu op => [[name op]]
  | xBus command => command.phrases
  | yBus command => command.phrases
  | d1Bus command => [command.phrase]
  | special command => [command.phrase]

end DspAsm
