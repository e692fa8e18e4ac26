import DspAsm.Command.Phrase
import DspAsm.Text.Numeral

namespace DspAsm

def programCapacity : Nat := 256

inductive Role where
  | xySource | d1Source | d1Destination | dmaPointer | mviDestination | condition | number
  | aluCommand | xBusCommand | yBusCommand | d1BusCommand
  | endCommand | loopCommand | dmaCommand | mviCommand | jumpCommand
  deriving DecidableEq

def Role.text : Role → String
  | xySource => "an X/Y-bus source"
  | d1Source => "a D1-bus source"
  | d1Destination => "a D1-bus destination"
  | dmaPointer => "a DMA RAM pointer"
  | mviDestination => "an MVI destination"
  | condition => "a condition"
  | number => "a number"
  | aluCommand => "an ALU command"
  | xBusCommand => "an X-bus command"
  | yBusCommand => "a Y-bus command"
  | d1BusCommand => "a D1-bus command"
  | endCommand => "an END command"
  | loopCommand => "a loop command"
  | dmaCommand => "a DMA command"
  | mviCommand => "an MVI command"
  | jumpCommand => "a JMP command"

inductive Reason where
  | operandCount (expected actual : Nat)
  | tooFewOperands (least actual : Nat)
  | strayOperands (actual : Nat)
  | isNot (text : String) (role : Role)
  | wrongKind (role : Role)
  | empty (slot : Slot)
  | noExternalEnd
  | programRamSource
  | outOfRange (value least most : Int)
  | namelessConstant
  | equalsSigns
  deriving DecidableEq

def quoted (text : String) : String :=
  "`" ++ text ++ "`"

def Reason.text : Reason → String
  | operandCount expected actual => s!"expected {expected} operand(s), got {actual}"
  | tooFewOperands least actual => s!"expected at least {least} operand(s), got {actual}"
  | strayOperands actual => s!"unexpected operand count {actual}"
  | isNot text role => quoted text ++ " is not " ++ role.text
  | wrongKind role => "not " ++ role.text
  | empty slot => "empty " ++ slot.name ++ " command"
  | noExternalEnd => "one endpoint must be D0"
  | programRamSource => "program RAM can only be a DMA destination"
  | outOfRange value least most => s!"immediate {value} outside {least}..={most}"
  | namelessConstant => "constant without a name"
  | equalsSigns => "a constant needs exactly one `=`"

inductive Fault where
  | unknownMnemonic (token : String)
  | unknownPattern (family : String) (bits : Nat)
  | malformed (subject : String) (reason : Reason)
  | conflict (slot : Slot) (first second : Command)
  | unknownSymbol (name : String)
  | duplicateSymbol (name : String)
  | labelOutOfRange (name : String) (index : Nat)
  | padding (mnemonic : String) (word : Nat)
  | instructionLength (bits : Nat)
  | imageLength (bits : Nat)
  | unknownFormat (word : Nat)
  | programTooLarge (count : Nat)
  | line (number : Nat) (tokens : String) (source : Fault)
  deriving DecidableEq

def Command.summary (command : Command) : String :=
  " / ".intercalate (command.phrases.map Phrase.text)

namespace Fault

def message : Fault → String
  | unknownMnemonic token => "unknown mnemonic " ++ quoted token
  | unknownPattern family bits => s!"unknown {family} bit pattern " ++ Numeral.binary bits
  | malformed subject reason => "malformed " ++ quoted subject ++ ": " ++ reason.text
  | conflict slot first second =>
    s!"incompatible commands for {slot.name}: " ++ quoted first.summary ++ " and " ++ quoted second.summary
  | unknownSymbol name => "unknown symbol " ++ quoted name
  | duplicateSymbol name => s!"symbol {quoted name} is already defined"
  | labelOutOfRange name index =>
    s!"label {quoted name} points at instruction {index}, program RAM holds {programCapacity}"
  | padding mnemonic word =>
    s!"malformed input: {mnemonic} word {Numeral.hexWord word} has non-zero padding"
  | instructionLength bits => s!"malformed input: an instruction is 32 bits, got {bits}"
  | imageLength bits => s!"malformed input: bit length {bits} is not a multiple of 32"
  | unknownFormat word => "unknown instruction format " ++ Numeral.hexWord word
  | programTooLarge count => s!"program has {count} instructions, program RAM holds {programCapacity}"
  | line number tokens source => s!"line {number}: " ++ quoted tokens ++ ": " ++ source.message

def atLine (fault : Fault) (number : Nat) (tokens : List String) : Fault :=
  line number (" ".intercalate tokens) fault

/-- The fault with any lines peeled off. -/
def kind : Fault → Fault
  | line _ _ source => source.kind
  | fault => fault

def line? : Fault → Option Nat
  | line number _ _ => some number
  | _ => none

end Fault

end DspAsm
