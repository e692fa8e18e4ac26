import DspAsm.Instruction.Assembly
import DspAsm.Proofs.Command.Parse
import DspAsm.Proofs.Phrase.Grouping

namespace DspAsm
open CodeTable (name ofName?)

/-! ## Phrases that the readers take -/

theorem parseLone_eq_ok {Op : Type} [CodeTable Op] [LawfulCodeTable Op] {role : Role} {stray : List String → Fault}
    {tokens : List String} {op : Op} : parseLone role stray tokens = .ok op ↔ tokens = [name op] := by
  match tokens with
  | [] => simp [parseLone]
  | [mnemonic] =>
    rw [List.singleton_inj, @eq_comm _ mnemonic, ← CodeTable.ofName?_eq_some, parseLone]
    cases (ofName? mnemonic : Option Op) <;> simp
  | _ :: _ :: _ => simp [parseLone]

theorem XBus.parse_eq_ok {tokens : List String} {command : XBus} :
    parse tokens = .ok command ↔ command.phrases = [tokens] := by
  constructor
  · intro parsed
    unfold parse at parsed
    split at parsed
    case h_5 => cases parsed
    case h_1 | h_2 =>
      cases parsed
      rfl
    all_goals
      obtain ⟨source, found, rfl⟩ := map_eq_ok.mp parsed
      rw [phrases, operand_eq_ok.mp found]
  · intro written
    cases command with
    | nop | movMulP =>
      cases written
      rfl
    | movSrcP source | movSrcX source =>
      cases written
      cases source <;> rfl
    -- A command that does two things in one cycle is written as two phrases, so no phrase is read as it.
    | movSrcXMulP source => cases written

theorem YBus.parse_eq_ok {tokens : List String} {command : YBus} :
    parse tokens = .ok command ↔ command.phrases = [tokens] := by
  constructor
  · intro parsed
    unfold parse at parsed
    split at parsed
    case h_6 => cases parsed
    case h_1 | h_2 | h_3 =>
      cases parsed
      rfl
    all_goals
      obtain ⟨source, found, rfl⟩ := map_eq_ok.mp parsed
      rw [phrases, operand_eq_ok.mp found]
  · intro written
    cases command with
    | nop | clrA | movAluA =>
      cases written
      rfl
    | movSrcA source | movSrcY source =>
      cases written
      cases source <;> rfl
    | movSrcYAluA source => cases written

theorem D1Bus.parse_eq_ok {scope : Scope} {tokens : List String} {command : D1Bus} :
    parse scope tokens = .ok command ↔ tokens = ["NOP"] ∧ command = nop ∨
      ∃ source destination, tokens = ["MOV", source, name destination] ∧
        parseSource scope source destination = .ok command := by
  constructor
  · intro parsed
    unfold parse at parsed
    split at parsed
    · cases parsed
      exact .inl ⟨rfl, rfl⟩
    · obtain ⟨destination, found, read⟩ := bind_eq_ok.mp parsed
      exact .inr ⟨_, destination, by rw [operand_eq_ok.mp found], read⟩
    · cases parsed
  · rintro (⟨rfl, rfl⟩ | ⟨source, destination, rfl, read⟩)
    · rfl
    · rw [parse, operand_eq_ok.mpr rfl, ok_bind, read]

/-! ## Kinds of commands -/

inductive CommandKind where
  | alu | xBus | yBus | d1Bus | stop | loop | dma | mvi | jump
  deriving DecidableEq

namespace CommandKind

def parse (scope : Scope) (phrase : Phrase) : CommandKind → Except Fault Command
  | alu => (AluOp.parse phrase).map .alu
  | xBus => (XBus.parse phrase).map .xBus
  | yBus => (YBus.parse phrase).map .yBus
  | d1Bus => (D1Bus.parse scope phrase).map .d1Bus
  | stop => (EndOp.parse phrase).map fun op => .special (.stop op)
  | loop => (LoopOp.parse phrase).map fun op => .special (.loop op)
  | dma => (Dma.parse scope phrase).map fun command => .special (.dma command)
  | mvi => (Mvi.parse scope phrase).map fun command => .special (.mvi command)
  | jump => (Jump.parse scope phrase).map fun command => .special (.jump command)

def ofMove : Option String → CommandKind
  | some "X" | some "P" => xBus
  | some "Y" | some "A" => yBus
  | _ => d1Bus

def ofFamily? (phrase : Phrase) : Family → Option CommandKind
  | .nop => none
  | .alu => some alu
  | .clr => some yBus
  | .mov => some (ofMove phrase[2]?)
  | .dma => some dma
  | .mvi => some mvi
  | .jump => some jump
  | .stop => some stop
  | .loop => some loop

theorem ofFamily?_eq_none {phrase : Phrase} {family : Family} : ofFamily? phrase family = none ↔ family = .nop := by
  cases family <;> simp [ofFamily?]

end CommandKind

theorem bind_return_some {α β : Type} {step : Except Fault α} {tag : α → β} :
    (step >>= fun value => (return some (tag value) : Except Fault (Option β))) = (step.map tag).map some := by
  cases step <;> rfl

theorem Command.parse_eq {scope : Scope} {mnemonic : Mnemonic} {token : String} {operands : List String}
    (found : Mnemonic.find? token = some mnemonic) :
    parse scope (token :: operands) =
      match CommandKind.ofFamily? (token :: operands) mnemonic.family with
      | none => .ok none
      | some kind => (kind.parse scope (token :: operands)).map some := by
  have read : Mnemonic.read token = .ok mnemonic := Mnemonic.read_eq_ok.mpr found
  rw [parse, read, ok_bind]
  cases family : mnemonic.family with
  | nop => rfl
  | alu | clr | dma | mvi | jump | stop | loop => exact bind_return_some
  | mov =>
    dsimp only [CommandKind.ofFamily?]
    generalize (token :: operands)[2]? = second
    split
    case h_5 =>
      have elsewhere : CommandKind.ofMove second = .d1Bus := by
        unfold CommandKind.ofMove
        split <;> simp_all
      rw [elsewhere]
      exact bind_return_some
    all_goals exact bind_return_some

namespace CommandKind

theorem ofFamily?_of_parse {scope : Scope} {kind : CommandKind} {token : String} {operands : List String}
    {command : Command} (parsed : kind.parse scope (token :: operands) = .ok command) (busy : token ≠ "NOP") :
    ∃ mnemonic, Mnemonic.find? token = some mnemonic ∧
      ofFamily? (token :: operands) mnemonic.family = some kind := by
  cases kind with
  | alu =>
    obtain ⟨op, read, -⟩ := map_eq_ok.mp parsed
    cases parseLone_eq_ok.mp read
    cases op with
    | nop => exact absurd rfl busy
    | _ => exact ⟨_, rfl, rfl⟩
  | xBus =>
    obtain ⟨command, read, -⟩ := map_eq_ok.mp parsed
    have written := XBus.parse_eq_ok.mp read
    cases command with
    | nop =>
      cases written
      exact absurd rfl busy
    | movMulP | movSrcP source | movSrcX source =>
      cases written
      exact ⟨_, rfl, rfl⟩
    | movSrcXMulP source => cases written
  | yBus =>
    obtain ⟨command, read, -⟩ := map_eq_ok.mp parsed
    have written := YBus.parse_eq_ok.mp read
    cases command with
    | nop =>
      cases written
      exact absurd rfl busy
    | clrA | movAluA | movSrcA source | movSrcY source =>
      cases written
      exact ⟨_, rfl, rfl⟩
    | movSrcYAluA source => cases written
  | d1Bus =>
    obtain ⟨command, read, -⟩ := map_eq_ok.mp parsed
    rcases D1Bus.parse_eq_ok.mp read with ⟨idle, -⟩ | ⟨source, destination, written, -⟩
    · cases idle
      exact absurd rfl busy
    · cases written
      -- No destination of the D1 bus is spelled like one of the X or Y bus.
      cases destination <;> exact ⟨_, rfl, rfl⟩
  | stop =>
    obtain ⟨op, read, -⟩ := map_eq_ok.mp parsed
    cases parseLone_eq_ok.mp read
    cases op <;> exact ⟨_, rfl, rfl⟩
  | loop =>
    obtain ⟨op, read, -⟩ := map_eq_ok.mp parsed
    cases parseLone_eq_ok.mp read
    cases op <;> exact ⟨_, rfl, rfl⟩
  | dma =>
    obtain ⟨command, read, -⟩ := map_eq_ok.mp parsed
    obtain ⟨-, length, written, -⟩ := Dma.parse_eq_ok.mp read
    obtain ⟨hold, addMode, direction, pointer, count⟩ := command
    cases hold <;> cases direction <;>
    · cases written
      exact ⟨_, rfl, rfl⟩
  | mvi =>
    obtain ⟨command, read, -⟩ := map_eq_ok.mp parsed
    obtain ⟨-, value, written, -⟩ := Mvi.parse_eq_ok.mp read
    obtain ⟨destination, immediate, condition⟩ := command
    cases condition <;>
    · cases written
      exact ⟨_, rfl, rfl⟩
  | jump =>
    obtain ⟨command, read, -⟩ := map_eq_ok.mp parsed
    obtain ⟨-, target, written, -⟩ := Jump.parse_eq_ok.mp read
    obtain ⟨condition, index⟩ := command
    cases condition <;>
    · cases written
      exact ⟨_, rfl, rfl⟩

end CommandKind

theorem Mnemonic.family_ne_nop {token : String} {mnemonic : Mnemonic} (found : find? token = some mnemonic)
    (busy : token ≠ "NOP") : mnemonic.family ≠ .nop := by
  have idle : ∀ mnemonic ∈ all, mnemonic.family = .nop → mnemonic.name = "NOP" := by decide
  intro family
  have named := idle mnemonic (List.mem_of_find?_eq_some found) family
  exact busy ((name_of_find? found).symm.trans named)

namespace Command

theorem parse_eq_ok {scope : Scope} {token : String} {operands : List String} {parsed : Option Command}
    (busy : token ≠ "NOP") :
    parse scope (token :: operands) = .ok parsed ↔ ∃ (kind : CommandKind) (command : Command),
      kind.parse scope (token :: operands) = .ok command ∧ parsed = some command := by
  constructor
  · intro read
    cases found : Mnemonic.find? token with
    | none =>
      rw [parse, Mnemonic.read, found] at read
      cases read
    | some mnemonic =>
      rw [parse_eq found] at read
      cases chosen : CommandKind.ofFamily? (token :: operands) mnemonic.family with
      | none => exact absurd (CommandKind.ofFamily?_eq_none.mp chosen) (Mnemonic.family_ne_nop found busy)
      | some kind =>
        rw [chosen] at read
        obtain ⟨command, taken, rfl⟩ := map_eq_ok.mp read
        exact ⟨kind, command, taken, rfl⟩
  · rintro ⟨kind, command, taken, rfl⟩
    obtain ⟨mnemonic, found, chosen⟩ := CommandKind.ofFamily?_of_parse taken busy
    rw [parse_eq found, chosen]
    exact map_eq_ok.mpr ⟨command, taken, rfl⟩

/-- A phrase that is no `NOP` is read exactly when one of the readers takes it, as the command that this reader gives. No
other reader takes it, and it is never passed over. -/
theorem parse_dispatches (scope : Scope) {token : String} (operands : List String) (busy : token ≠ "NOP") :
    (∀ (kind kind' : CommandKind) (command command' : Command), kind.parse scope (token :: operands) = .ok command →
        kind'.parse scope (token :: operands) = .ok command' → kind = kind') ∧
      (∀ command, parse scope (token :: operands) = .ok (some command) ↔
        ∃ kind : CommandKind, kind.parse scope (token :: operands) = .ok command) ∧
      parse scope (token :: operands) ≠ .ok none := by
  refine ⟨?_, ?_, ?_⟩
  · intro kind kind' command command' taken taken'
    obtain ⟨mnemonic, found, chosen⟩ := CommandKind.ofFamily?_of_parse taken busy
    obtain ⟨mnemonic', found', chosen'⟩ := CommandKind.ofFamily?_of_parse taken' busy
    rw [found, Option.some.injEq] at found'
    rw [← found', chosen, Option.some.injEq] at chosen'
    exact chosen'
  · intro command
    simp [parse_eq_ok busy]
  · simp [parse_eq_ok busy]

/-- `MC0` is a source of all three buses, so only the destination tells which of them takes the move. -/
theorem parse_dispatches_move :
    CommandKind.d1Bus.parse {} ["MOV", "MC0", "RX"] = .ok (.d1Bus (.movSrc .mc0 .rx)) ∧
      parse {} ["MOV", "MC0", "RX"] = .ok (some (.d1Bus (.movSrc .mc0 .rx))) ∧
      ∀ kind command, CommandKind.parse {} ["MOV", "MC0", "RX"] kind = .ok command → kind = .d1Bus := by
  have busy : "MOV" ≠ "NOP" := by decide
  have taken : CommandKind.d1Bus.parse {} ["MOV", "MC0", "RX"] = .ok (.d1Bus (.movSrc .mc0 .rx)) := rfl
  obtain ⟨unique, read, -⟩ := parse_dispatches {} ["MC0", "RX"] busy
  exact ⟨taken, (read _).mpr ⟨_, taken⟩, fun kind command taken' => unique kind _ command _ taken' taken⟩

end Command

end DspAsm
