import DspAsm.Instruction.Basic
import DspAsm.Symbol.Scope

namespace DspAsm

structure Program where
  instructions : List Instruction
  scope : Scope := {}
  deriving DecidableEq

namespace Program

def ofInstructions (instructions : List Instruction) : Except Fault Program :=
  if programCapacity < instructions.length then .error (.programTooLarge instructions.length)
  else .ok { instructions }

def length (program : Program) : Nat :=
  program.instructions.length

def words (program : Program) : List Word :=
  program.instructions.map Instruction.toWord

end Program

end DspAsm
