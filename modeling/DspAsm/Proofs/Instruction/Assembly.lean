import DspAsm.Proofs.Command.Phrase
import DspAsm.Proofs.Instruction.Combination

namespace DspAsm
open CodeTable (name)

/-! ## Commands -/

namespace Command

theorem parse_legal {scope : Scope} {phrase : Phrase} {command : Special}
    (parsed : parse scope phrase = .ok (some (.special command))) : command.Legal := by
  cases phrase with
  | nil => cases parsed
  | cons token operands =>
    simp only [parse, bind_eq_ok] at parsed
    obtain ⟨mnemonic, _, parsed⟩ := parsed
    cases family : mnemonic.family <;> simp only [family, bind_eq_ok, pure_eq_ok] at parsed
    case nop => cases parsed
    case alu | clr =>
      obtain ⟨_, _, equal⟩ := parsed
      cases equal
    case mov =>
      split at parsed <;>
      · simp only [bind_eq_ok, pure_eq_ok] at parsed
        obtain ⟨_, _, equal⟩ := parsed
        cases equal
    case dma =>
      obtain ⟨_, read, equal⟩ := parsed
      cases equal
      exact (Dma.parse_eq_ok.mp read).1
    case mvi =>
      obtain ⟨_, read, equal⟩ := parsed
      cases equal
      exact (Mvi.parse_eq_ok.mp read).1
    case jump =>
      obtain ⟨_, read, equal⟩ := parsed
      cases equal
      exact (Jump.parse_eq_ok.mp read).1
    case stop | loop =>
      obtain ⟨_, read, equal⟩ := parsed
      cases equal
      trivial

end Command

/-! ## Instructions -/

namespace Slots

def commands (slots : Slots) : List Command :=
  slots.alu.parts.map .alu ++ slots.xBus.parts.map .xBus ++ slots.yBus.parts.map .yBus ++
    slots.d1Bus.parts.map .d1Bus

theorem filterMap_commands (slots : Slots) :
    slots.commands.filterMap Command.special? = [] ∧ slots.commands.filterMap Command.alu? = slots.alu.parts ∧
      slots.commands.filterMap Command.xBus? = slots.xBus.parts ∧
      slots.commands.filterMap Command.yBus? = slots.yBus.parts ∧
      slots.commands.filterMap Command.d1Bus? = slots.d1Bus.parts := by
  refine ⟨?_, ?_, ?_, ?_, ?_⟩ <;>
    simp [commands, Function.comp_def, Command.special?, Command.alu?, Command.xBus?, Command.yBus?, Command.d1Bus?]

theorem printable {slots : Slots} {phrase : Phrase} (member : phrase ∈ slots.phrases) : phrase.Printable := by
  simp only [phrases, List.mem_append, List.mem_singleton] at member
  rcases member with ((rfl | member) | member) | rfl
  · exact slots.alu.printable
  · exact XBus.printable member
  · exact YBus.printable member
  · exact slots.d1Bus.printable

theorem reads (scope : Scope) (slots : Slots) : Reads scope slots.phrases slots.commands :=
  (((slots.alu.reads scope).append (slots.xBus.reads scope)).append (slots.yBus.reads scope)).append
    (slots.d1Bus.reads scope)

end Slots

/-! ## Parts -/

theorem AluOp.fills_parts (op : AluOp) : ∃ held, Fills (fun _ _ _ => False) op.parts held ∧ held.getD .nop = op := by
  cases op with
  | nop => exact ⟨_, .none, rfl⟩
  | _ => exact ⟨_, .one _, rfl⟩

theorem XBus.fills_parts (command : XBus) :
    ∃ held, Fills (Pairs movSrcX movMulP movSrcXMulP) command.parts held ∧ held.getD .nop = command := by
  cases command with
  | nop => exact ⟨_, .none, rfl⟩
  | movMulP | movSrcP source | movSrcX source => exact ⟨_, .one _, rfl⟩
  | movSrcXMulP source => exact ⟨_, .two (.before source), rfl⟩

theorem YBus.fills_parts (command : YBus) :
    ∃ held, Fills (Pairs movSrcY movAluA movSrcYAluA) command.parts held ∧ held.getD .nop = command := by
  cases command with
  | nop => exact ⟨_, .none, rfl⟩
  | clrA | movAluA | movSrcA source | movSrcY source => exact ⟨_, .one _, rfl⟩
  | movSrcYAluA source => exact ⟨_, .two (.before source), rfl⟩

theorem D1Bus.fills_parts (command : D1Bus) :
    ∃ held, Fills (fun _ _ _ => False) command.parts held ∧ held.getD .nop = command := by
  cases command with
  | nop => exact ⟨_, .none, rfl⟩
  | movImm immediate destination | movSrc source destination => exact ⟨_, .one _, rfl⟩

namespace Instruction

theorem ofCommands_slots (slots : Slots) : ofCommands slots.commands = .ok (.compound slots) := by
  obtain ⟨alu, fillsAlu, hasAlu⟩ := slots.alu.fills_parts
  obtain ⟨xBus, fillsXBus, hasXBus⟩ := slots.xBus.fills_parts
  obtain ⟨yBus, fillsYBus, hasYBus⟩ := slots.yBus.fills_parts
  obtain ⟨d1Bus, fillsD1Bus, hasD1Bus⟩ := slots.d1Bus.fills_parts
  obtain ⟨plain, alus, xBuses, yBuses, d1Buses⟩ := slots.filterMap_commands
  rw [← alus] at fillsAlu
  rw [← xBuses] at fillsXBus
  rw [← yBuses] at fillsYBus
  rw [← d1Buses] at fillsD1Bus
  have carried := CarriesOut.compound plain fillsAlu fillsXBus fillsYBus fillsD1Bus
  rw [hasAlu, hasXBus, hasYBus, hasD1Bus] at carried
  exact ofCommands_eq_ok.mpr carried

theorem eq_of_ofCommands_special {command : Special} {later : List Command} {instruction : Instruction}
    (made : ofCommands (.special command :: later) = .ok instruction) : instruction = .special command := by
  cases ofCommands_eq_ok.mp made with
  | special => rfl
  | compound plain => simp [Command.special?] at plain

theorem ofTokens_eq_ok {scope : Scope} {tokens : List String} {written : List Phrase} {instruction : Instruction}
    (divided : DspAsm.phrases tokens = .ok written) :
    ofTokens scope tokens = .ok instruction ↔
      ∃ commands, Reads scope written commands ∧ ofCommands commands = .ok instruction := by
  rw [ofTokens, divided, ok_bind, bind_eq_ok]
  constructor
  · rintro ⟨parsed, run, made⟩
    exact ⟨_, ⟨parsed, run, rfl⟩, made⟩
  · rintro ⟨_, ⟨parsed, run, rfl⟩, made⟩
    exact ⟨parsed, run, made⟩

theorem ofTokens_compound (scope : Scope) (slots : Slots) :
    ofTokens scope slots.phrases.flatten = .ok (.compound slots) := by
  have divided : DspAsm.phrases slots.phrases.flatten = .ok slots.phrases :=
    phrases_flatten fun _ member => (Slots.printable member).wellFormed
  exact (ofTokens_eq_ok divided).mpr ⟨slots.commands, slots.reads scope, ofCommands_slots slots⟩

theorem ofCommands_single_eq_special {command : Command} {special : Special} :
    ofCommands [command] = .ok (.special special) ↔ command = .special special := by
  cases command with
  | alu op | xBus command | yBus command | d1Bus command =>
    refine iff_of_false ?_ nofun
    intro made
    cases made
  | special held =>
    rw [Command.special.injEq]
    constructor
    · intro made
      exact (Instruction.special.inj (eq_of_ofCommands_special made)).symm
    · rintro rfl
      rfl

theorem ofTokens_eq_special {scope : Scope} {phrase : Phrase} {command : Special} (printable : phrase.Printable) :
    ofTokens scope phrase = .ok (.special command) ↔
      Command.parse scope phrase = .ok (some (.special command)) := by
  have alone : DspAsm.phrases phrase = .ok [phrase] := by
    have divided : DspAsm.phrases [phrase].flatten = .ok [phrase] :=
      phrases_flatten (by simpa using printable.wellFormed)
    rwa [List.flatten_singleton] at divided
  rw [ofTokens, alone, ok_bind, bind_eq_ok]
  constructor
  · rintro ⟨parsed, run, made⟩
    obtain ⟨result, later, read, none, rfl⟩ := List.forall₂_cons_left_iff.mp (mapM_eq_ok.mp run)
    cases none
    cases result with
    | none => cases made
    | some result => rw [read, ofCommands_single_eq_special.mp made]
  · intro read
    exact ⟨[some (.special command)], mapM_eq_ok.mpr (.cons read .nil), rfl⟩

/-- What the text of a line can say, a word can hold. -/
theorem ofTokens_legal {scope : Scope} {tokens : List String} {instruction : Instruction}
    (assembled : ofTokens scope tokens = .ok instruction) : instruction.Legal := by
  simp only [ofTokens, bind_eq_ok, ofCommands_eq_ok] at assembled
  obtain ⟨written, _, parsed, reads, carries⟩ := assembled
  cases instruction with
  | compound slots => trivial
  | special command =>
    have member : some (.special command) ∈ parsed := by
      have listed : .special command ∈ parsed.filterMap id := by
        rw [carries.commands_eq]
        exact List.mem_singleton_self _
      simpa using listed
    obtain ⟨phrase, _, read⟩ := exists_of_mem_mapM reads member
    exact Command.parse_legal read

end Instruction

/-! ## Branch targets -/

theorem Mvi.target?_eq_some {command : Mvi} {target : Nat} :
    command.target? = some target ↔ command.destination = .pc ∧ command.immediate = target := by
  rw [target?, Option.ite_none_right_eq_some, Option.some.injEq, and_assoc]
  exact and_congr_right fun _ => by omega

namespace Instruction

def BranchesTo (target : Nat) : Instruction → Prop
  | special (.jump command) => command.target.toNat = target
  | special (.mvi command) => command.destination = .pc ∧ command.immediate = target
  | compound _ | special (.stop _) | special (.loop _) | special (.dma _) => False

theorem target?_eq_some {instruction : Instruction} {target : Nat} :
    instruction.target? = some target ↔ instruction.BranchesTo target := by
  match instruction with
  | compound slots => simp [target?, BranchesTo]
  | special (.stop op) | special (.loop op) | special (.dma command) => simp [target?, Special.target?, BranchesTo]
  | special (.mvi command) => exact Mvi.target?_eq_some
  | special (.jump command) => simp [target?, Special.target?, BranchesTo]

end Instruction

end DspAsm
