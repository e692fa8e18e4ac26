import DspAsm.Fault

/-!
Mnemonics, and how the tokens of a line divide into phrases.

A phrase is a mnemonic and the operands that belong to it. The operands a mnemonic needs are the tokens after it,
whatever they are; one that it may take as well is left to the next phrase when it is a mnemonic itself.
-/

namespace DspAsm

inductive Family where
  | nop | alu | mov | clr | dma | mvi | jump | stop | loop
  deriving DecidableEq

structure Mnemonic where
  name : String
  family : Family
  least : Nat
  most : Nat
  deriving DecidableEq

namespace Mnemonic

def all : List Mnemonic :=
  [⟨"NOP", .nop, 0, 0⟩, ⟨"AND", .alu, 0, 0⟩, ⟨"OR", .alu, 0, 0⟩, ⟨"XOR", .alu, 0, 0⟩, ⟨"ADD", .alu, 0, 0⟩,
   ⟨"SUB", .alu, 0, 0⟩, ⟨"AD2", .alu, 0, 0⟩, ⟨"SR", .alu, 0, 0⟩, ⟨"RR", .alu, 0, 0⟩, ⟨"SL", .alu, 0, 0⟩,
   ⟨"RL", .alu, 0, 0⟩, ⟨"RL8", .alu, 0, 0⟩, ⟨"MOV", .mov, 2, 2⟩, ⟨"CLR", .clr, 1, 1⟩, ⟨"DMA", .dma, 3, 3⟩,
   ⟨"DMAH", .dma, 3, 3⟩, ⟨"MVI", .mvi, 2, 3⟩, ⟨"JMP", .jump, 1, 2⟩, ⟨"END", .stop, 0, 0⟩,
   ⟨"ENDI", .stop, 0, 0⟩, ⟨"BTM", .loop, 0, 0⟩, ⟨"LPS", .loop, 0, 0⟩]

def find? (token : String) : Option Mnemonic :=
  all.find? fun mnemonic => mnemonic.name == token

def read (token : String) : Except Fault Mnemonic :=
  match find? token with
  | some mnemonic => .ok mnemonic
  | none => .error (.unknownMnemonic token)

end Mnemonic

structure OpenPhrase where
  mnemonic : Mnemonic
  operands : List String

namespace OpenPhrase

def accepts (phrase : OpenPhrase) (token : String) : Bool :=
  phrase.operands.length < phrase.mnemonic.least ||
    (phrase.operands.length < phrase.mnemonic.most && (Mnemonic.find? token).isNone)

def add (phrase : OpenPhrase) (token : String) : OpenPhrase :=
  { phrase with operands := phrase.operands ++ [token] }

def close (phrase : OpenPhrase) : Phrase :=
  phrase.mnemonic.name :: phrase.operands

/-- The phrases of the tokens that follow an open one, with that phrase in front. -/
def phrasesFrom (phrase : OpenPhrase) : List String → Except Fault (List Phrase)
  | [] =>
    if phrase.operands.length < phrase.mnemonic.least then
      .error (.malformed phrase.mnemonic.name
        (.tooFewOperands phrase.mnemonic.least phrase.operands.length))
    else .ok [phrase.close]
  | token :: tokens =>
    if phrase.accepts token then (phrase.add token).phrasesFrom tokens
    else do
      let mnemonic ← Mnemonic.read token
      let later ← OpenPhrase.phrasesFrom ⟨mnemonic, []⟩ tokens
      return phrase.close :: later

end OpenPhrase

def phrases : List String → Except Fault (List Phrase)
  | [] => .ok []
  | token :: tokens => do
    let mnemonic ← Mnemonic.read token
    OpenPhrase.phrasesFrom ⟨mnemonic, []⟩ tokens

end DspAsm
