import DspAsm.Layout
import DspAsm.Program.Basic

namespace DspAsm
open Text

namespace Program

def targetLabel (stem : String) (target : Nat) : String :=
  String.ofList (upper stem.toList) ++ Numeral.upperHex 2 target

/-- Labels a branch target, unless it lies outside the program or has a label already. -/
def labelTarget (stem : String) (length : Nat) (scope : Scope) (target : Nat) : Except Fault Scope :=
  if target < length ∧ !scope.hasLabelAt target then scope.addLabel (targetLabel stem target) target
  else .ok scope

def labelTargets (stem : String) (instructions : List Instruction) : Except Fault Scope :=
  (instructions.filterMap Instruction.target?).foldlM (labelTarget stem instructions.length) {}

def ofBits (layout : Layout) (bits : List Bool) : Except Fault Program := do
  if bits.length % 32 ≠ 0 then
    throw (.imageLength bits.length)
  let count := bits.length / 32
  if programCapacity < count then
    throw (.programTooLarge count)
  let instructions ← (Word.takeStream count bits).mapM Instruction.ofWord
  let scope ← if layout.autoLabels then labelTargets layout.labelStem instructions else pure {}
  return { instructions, scope }

def ofBytes (layout : Layout) (bytes : List UInt8) : Except Fault Program :=
  ofBits layout (bytesToBits bytes)

def toBytes (program : Program) : List UInt8 :=
  program.words.flatMap Word.toBytes

end Program

end DspAsm
