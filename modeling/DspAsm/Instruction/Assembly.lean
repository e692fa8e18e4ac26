import DspAsm.Command.Parse
import DspAsm.Instruction.Basic
import DspAsm.Mnemonic

namespace DspAsm

/-- Reads a phrase with the reader of its kind. `NOP` asks for nothing. -/
def Command.parse (scope : Scope) : Phrase → Except Fault (Option Command)
  | [] => .ok none
  | mnemonic :: operands => do
    let phrase := mnemonic :: operands
    match (← Mnemonic.read mnemonic).family with
    | .nop => return none
    | .alu => return some (.alu (← AluOp.parse phrase))
    | .clr => return some (.yBus (← YBus.parse phrase))
    | .mov =>
      match phrase[2]? with
      | some "X" | some "P" => return some (.xBus (← XBus.parse phrase))
      | some "Y" | some "A" => return some (.yBus (← YBus.parse phrase))
      | _ => return some (.d1Bus (← D1Bus.parse scope phrase))
    | .dma => return some (.special (.dma (← Dma.parse scope phrase)))
    | .mvi => return some (.special (.mvi (← Mvi.parse scope phrase)))
    | .jump => return some (.special (.jump (← Jump.parse scope phrase)))
    | .stop => return some (.special (.stop (← EndOp.parse phrase)))
    | .loop => return some (.special (.loop (← LoopOp.parse phrase)))

/-- Slots as far as they have been taken, with the first command that took one. -/
structure TakenSlots where
  first : Option Command := none
  alu : Option AluOp := none
  xBus : Option XBus := none
  yBus : Option YBus := none
  d1Bus : Option D1Bus := none

def TakenSlots.close (taken : TakenSlots) : Slots where
  alu := taken.alu.getD .nop
  xBus := taken.xBus.getD .nop
  yBus := taken.yBus.getD .nop
  d1Bus := taken.d1Bus.getD .nop

/-- What a slot holds after one more command: the command itself, or the two merged. -/
def refill {α : Type} (command : α → Command) (merge? : α → α → Option α) (held : Option α) (next : α) :
    Except Fault (Option α) :=
  match held with
  | none => .ok (some next)
  | some previous =>
    match merge? previous next with
    | some merged => .ok (some merged)
    | none => .error (.conflict (command next).slot (command previous) (command next))

inductive Draft where
  | slots (taken : TakenSlots)
  | special (command : Special)

namespace Draft

def add : Draft → Command → Except Fault Draft
  | special held, next => .error (.conflict .special (.special held) next)
  | slots taken, .special next =>
    match taken.first with
    | none => .ok (special next)
    | some first => .error (.conflict .special first (.special next))
  | slots taken, .alu next => do
    let alu ← refill .alu (fun _ _ => none) taken.alu next
    return slots { taken with alu, first := some (taken.first.getD (.alu next)) }
  | slots taken, .xBus next => do
    let xBus ← refill .xBus XBus.merge? taken.xBus next
    return slots { taken with xBus, first := some (taken.first.getD (.xBus next)) }
  | slots taken, .yBus next => do
    let yBus ← refill .yBus YBus.merge? taken.yBus next
    return slots { taken with yBus, first := some (taken.first.getD (.yBus next)) }
  | slots taken, .d1Bus next => do
    let d1Bus ← refill .d1Bus (fun _ _ => none) taken.d1Bus next
    return slots { taken with d1Bus, first := some (taken.first.getD (.d1Bus next)) }

def close : Draft → Instruction
  | slots taken => .compound taken.close
  | special command => .special command

end Draft

namespace Instruction

def ofCommands (commands : List Command) : Except Fault Instruction := do
  let draft ← commands.foldlM Draft.add (.slots {})
  return draft.close

def ofTokens (scope : Scope) (tokens : List String) : Except Fault Instruction := do
  let commands ← (← DspAsm.phrases tokens).mapM (Command.parse scope)
  ofCommands (commands.filterMap id)

end Instruction

end DspAsm
