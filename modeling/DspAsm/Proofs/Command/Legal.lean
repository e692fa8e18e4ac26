import DspAsm.Instruction.Basic

namespace DspAsm

def Dma.Legal (command : Dma) : Prop :=
  command.addMode = 1 ∧ ¬ (command.pointer = .prg ∧ command.direction = .ramToD0)

def Mvi.Legal (command : Mvi) : Prop :=
  match command.condition with
  | none => -0x1000000 ≤ command.immediate ∧ command.immediate < 0x1000000
  | some _ => -0x40000 ≤ command.immediate ∧ command.immediate < 0x40000

def Jump.Legal (command : Jump) : Prop :=
  command.target ≤ 127

def Special.Legal : Special → Prop
  | stop _ | loop _ => True
  | dma command => command.Legal
  | mvi command => command.Legal
  | jump command => command.Legal

def Instruction.Legal : Instruction → Prop
  | compound _ => True
  | special command => command.Legal

instance (command : Dma) : Decidable command.Legal :=
  inferInstanceAs (Decidable (_ ∧ _))

instance (command : Mvi) : Decidable command.Legal :=
  match h : command.condition with
  | none => decidable_of_iff (-0x1000000 ≤ command.immediate ∧ command.immediate < 0x1000000) (by simp [Mvi.Legal, h])
  | some _ => decidable_of_iff (-0x40000 ≤ command.immediate ∧ command.immediate < 0x40000) (by simp [Mvi.Legal, h])

instance (command : Jump) : Decidable command.Legal :=
  inferInstanceAs (Decidable (_ ≤ _))

instance : (command : Special) → Decidable command.Legal
  | .stop _ | .loop _ => .isTrue trivial
  | .dma command => inferInstanceAs (Decidable command.Legal)
  | .mvi command => inferInstanceAs (Decidable command.Legal)
  | .jump command => inferInstanceAs (Decidable command.Legal)

instance : (instruction : Instruction) → Decidable instruction.Legal
  | .compound _ => .isTrue trivial
  | .special command => inferInstanceAs (Decidable command.Legal)

end DspAsm
