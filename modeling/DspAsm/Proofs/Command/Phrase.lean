import DspAsm.Instruction.Assembly
import DspAsm.Proofs.Command.Parse
import DspAsm.Proofs.Phrase.Grouping

namespace DspAsm
open CodeTable (name ofName?)
open Text

/-! ## Phrases that listings are made of -/

/-- A phrase that can be written into a line: its tokens stay whole there, and the phrase ends where it should. -/
structure Phrase.Printable (phrase : Phrase) : Prop where
  wellFormed : phrase.WellFormed
  inked : ∀ token ∈ phrase, IsInked token

def Reads (scope : Scope) (written : List Phrase) (commands : List Command) : Prop :=
  ∃ parsed, written.mapM (Command.parse scope) = .ok parsed ∧ parsed.filterMap id = commands

theorem Reads.append {scope : Scope} {written later : List Phrase} {commands next : List Command}
    (reads : Reads scope written commands) (follow : Reads scope later next) :
    Reads scope (written ++ later) (commands ++ next) := by
  obtain ⟨parsed, run, rfl⟩ := reads
  obtain ⟨parsed', run', rfl⟩ := follow
  refine ⟨parsed ++ parsed', ?_, List.filterMap_append⟩
  rw [List.mapM_append, run, ok_bind, run', ok_bind]
  rfl

theorem Reads.single {scope : Scope} {phrase : Phrase} {command : Command}
    (parsed : Command.parse scope phrase = .ok (some command)) : Reads scope [phrase] [command] := by
  refine ⟨[some command], ?_, rfl⟩
  rw [List.mapM_cons, parsed]
  rfl

theorem isInked_name {α : Type} [CodeTable α] [LawfulCodeTable α] (value : α) : IsInked (name value) :=
  (CodeTable.isIdentifier_name value).isInked

theorem ofName?_of_number {α : Type} [CodeTable α] [LawfulCodeTable α] {text : String} {number : Int}
    (numeral : Numeral.read? text = some number) : (ofName? text : Option α) = none := by
  cases found : (ofName? text : Option α) with
  | none => rfl
  | some value =>
    have unread := Numeral.read?_identifier (CodeTable.isIdentifier_name value)
    rw [CodeTable.ofName?_eq_some.mp found, numeral] at unread
    cases unread

/-! ## The arithmetic unit and the X and Y buses -/

theorem AluOp.printable (op : AluOp) : Phrase.Printable [name op] where
  wellFormed := by cases op <;> exact ⟨_, rfl, Mnemonic.takes_of_fixed rfl rfl⟩
  inked := by simpa using isInked_name op

def AluOp.parts : AluOp → List AluOp
  | nop => []
  | op => [op]

theorem AluOp.reads (scope : Scope) (op : AluOp) : Reads scope [[name op]] (op.parts.map .alu) := by
  cases op <;> exact ⟨_, rfl, rfl⟩

theorem printable_mov {source destination : String} (from_inked : IsInked source) (to_inked : IsInked destination) :
    Phrase.Printable ["MOV", source, destination] where
  wellFormed := ⟨⟨"MOV", .mov, 2, 2⟩, rfl, Mnemonic.takes_of_fixed rfl rfl⟩
  inked := by simpa using ⟨by decide, from_inked, to_inked⟩

theorem printable_nop : Phrase.Printable ["NOP"] :=
  AluOp.printable .nop

namespace XBus

theorem printable {command : XBus} {phrase : Phrase} (member : phrase ∈ command.phrases) : phrase.Printable := by
  cases command <;> simp only [phrases, List.mem_cons, List.not_mem_nil, or_false] at member
  case nop => exact member ▸ printable_nop
  case movMulP => exact member ▸ printable_mov (by decide) (by decide)
  case movSrcP source => exact member ▸ printable_mov (isInked_name source) (by decide)
  case movSrcX source => exact member ▸ printable_mov (isInked_name source) (by decide)
  case movSrcXMulP source =>
    rcases member with rfl | rfl
    · exact printable_mov (isInked_name source) (by decide)
    · exact printable_mov (by decide) (by decide)

def parts : XBus → List XBus
  | nop => []
  | movSrcXMulP source => [movSrcX source, movMulP]
  | command => [command]

theorem reads (scope : Scope) (command : XBus) : Reads scope command.phrases (command.parts.map .xBus) := by
  cases command with
  | nop | movMulP => exact ⟨_, rfl, rfl⟩
  | movSrcP source | movSrcX source | movSrcXMulP source => cases source <;> exact ⟨_, rfl, rfl⟩

end XBus

namespace YBus

theorem printable {command : YBus} {phrase : Phrase} (member : phrase ∈ command.phrases) : phrase.Printable := by
  cases command <;> simp only [phrases, List.mem_cons, List.not_mem_nil, or_false] at member
  case nop => exact member ▸ printable_nop
  case clrA => exact member ▸ ⟨⟨_, rfl, Mnemonic.takes_of_fixed rfl rfl⟩, by decide⟩
  case movAluA => exact member ▸ printable_mov (by decide) (by decide)
  case movSrcA source => exact member ▸ printable_mov (isInked_name source) (by decide)
  case movSrcY source => exact member ▸ printable_mov (isInked_name source) (by decide)
  case movSrcYAluA source =>
    rcases member with rfl | rfl
    · exact printable_mov (isInked_name source) (by decide)
    · exact printable_mov (by decide) (by decide)

def parts : YBus → List YBus
  | nop => []
  | movSrcYAluA source => [movSrcY source, movAluA]
  | command => [command]

theorem reads (scope : Scope) (command : YBus) : Reads scope command.phrases (command.parts.map .yBus) := by
  cases command with
  | nop | clrA | movAluA => exact ⟨_, rfl, rfl⟩
  | movSrcA source | movSrcY source | movSrcYAluA source => cases source <;> exact ⟨_, rfl, rfl⟩

end YBus

/-! ## Numbers as operands -/

theorem Scope.labelValue_of_number {scope : Scope} {token : String} {number : Int}
    (numeral : Numeral.read? token = some number) : scope.labelValue token = .ok number := by
  rw [labelValue, numeral]

theorem Scope.constantValue_of_number {scope : Scope} {token : String} {number : Int}
    (numeral : Numeral.read? token = some number) : scope.constantValue token = .ok number := by
  rw [constantValue, numeral]

theorem isRegisterName_of_number {text : String} {number : Int} (numeral : Numeral.read? text = some number) :
    isRegisterName text = false := by
  have unlisted : text ∉ ["A", "P", "X", "Y", "ALU", "MUL", "PC"] := by
    have identifiers : ∀ register ∈ ["A", "P", "X", "Y", "ALU", "MUL", "PC"], IsIdentifier register := by decide
    intro member
    rw [Numeral.read?_identifier (identifiers text member)] at numeral
    cases numeral
  rw [isRegisterName, ofName?_of_number numeral, ofName?_of_number numeral, Bool.or_assoc]
  simpa using unlisted

theorem bounded_byte (mnemonic : String) (byte : UInt8) :
    bounded mnemonic 0 255 (byte.toNat : Int) = .ok (byte.toNat : Int) := by
  have := byte.toNat_lt
  exact bounded_eq_ok.mpr ⟨by omega, rfl⟩

/-! ## The D1 bus -/

namespace D1Bus

theorem printable (command : D1Bus) : command.phrase.Printable := by
  cases command with
  | nop => exact printable_nop
  | movImm immediate destination =>
    exact printable_mov (Numeral.isInked_immediate immediate.toNat) (isInked_name destination)
  | movSrc source destination => exact printable_mov (isInked_name source) (isInked_name destination)

theorem parse_phrase (scope : Scope) (command : D1Bus) : parse scope command.phrase = .ok command := by
  cases command with
  | nop => rfl
  | movImm immediate destination =>
    have byte := immediate.toNat_lt
    have numeral : Numeral.read? ("#" ++ toString immediate.toNat) = some (immediate.toNat : Int) :=
      @Numeral.read?_immediate immediate.toNat (by omega)
    rw [phrase, parse, operand_eq_ok.mpr rfl, ok_bind, parseSource, ofName?_of_number numeral]
    simp only [isRegisterName_of_number numeral, Scope.constantValue_of_number numeral, ok_bind, bounded_byte]
    simp [pure, Except.pure]
  | movSrc source destination =>
    rw [phrase, parse, operand_eq_ok.mpr rfl, ok_bind, parseSource, CodeTable.ofName?_name]

def parts : D1Bus → List D1Bus
  | nop => []
  | command => [command]

/-- No destination of the D1 bus is spelled like one of the X or Y bus, so the move is not routed to these. -/
theorem parse_mov (scope : Scope) (source : String) (destination : D1Destination) :
    Command.parse scope ["MOV", source, name destination] =
      (parse scope ["MOV", source, name destination] >>= fun command => return some (.d1Bus command)) := by
  cases destination <;> rfl

theorem reads (scope : Scope) (command : D1Bus) : Reads scope [command.phrase] (command.parts.map .d1Bus) := by
  have read := parse_phrase scope command
  cases command with
  | nop => exact ⟨_, rfl, rfl⟩
  | movImm immediate destination =>
    apply Reads.single
    rw [phrase] at read ⊢
    rw [parse_mov, read]
    rfl
  | movSrc source destination =>
    apply Reads.single
    rw [phrase] at read ⊢
    rw [parse_mov, read]
    rfl

end D1Bus

/-! ## Special commands -/

theorem Mnemonic.find?_of_number {text : String} {number : Int} (numeral : Numeral.read? text = some number) :
    find? text = none := by
  have identifiers : ∀ mnemonic ∈ all, IsIdentifier mnemonic.name := by decide
  refine List.find?_eq_none.mpr fun mnemonic member => ?_
  rw [beq_iff_eq]
  rintro rfl
  rw [Numeral.read?_identifier (identifiers mnemonic member)] at numeral
  cases numeral

theorem Mnemonic.find?_condition (condition : Condition) : find? (CodeTable.name condition) = none := by
  cases condition <;> decide

theorem Numeral.read?_byte (byte : UInt8) : read? (toString byte.toNat) = some (byte.toNat : Int) := by
  have := byte.toNat_lt
  exact read?_toString (by omega)

namespace Dma

theorem isInked_count (count : DmaCount) : IsInked count.text := by
  cases count with
  | immediate length => exact Numeral.isInked_toString _
  | referenced counter => exact isInked_name counter

theorem printable (command : Dma) : command.phrase.Printable := by
  have mnemonic_inked : IsInked command.mnemonic := by
    cases held : command.hold <;> simp only [mnemonic, held] <;> decide
  have counted := isInked_count command.count
  have pointed := isInked_name command.pointer
  constructor
  · have found : ∃ mnemonic, Mnemonic.find? command.mnemonic = some mnemonic ∧ mnemonic.least = 3 ∧
        mnemonic.most = 3 := by
      cases held : command.hold <;> simp only [mnemonic, held] <;> exact ⟨_, rfl, rfl, rfl⟩
    obtain ⟨mnemonic, found, least, most⟩ := found
    rw [phrase]
    split <;> exact ⟨mnemonic, found, Mnemonic.takes_of_fixed (least.trans most.symm) least.symm⟩
  · have external : IsInked "D0" := by decide
    rw [phrase]
    split <;> simp_all

theorem parseCount_text (scope : Scope) (mnemonic : String) (count : DmaCount) :
    parseCount scope mnemonic count.text = .ok count := by
  cases count with
  | immediate length =>
    have numeral := Numeral.read?_byte length
    rw [DmaCount.text, parseCount, ofName?_of_number numeral]
    simp only [Scope.constantValue_of_number numeral, ok_bind, bounded_byte]
    simp [pure, Except.pure]
  | referenced counter => rw [DmaCount.text, parseCount, CodeTable.ofName?_name]

theorem parse_phrase (scope : Scope) {command : Dma} (legal : command.Legal) :
    parse scope command.phrase = .ok command := by
  refine parse_eq_ok.mpr ⟨legal, command.count.text, ?_, parseCount_text ..⟩
  rw [phrase]
  split <;> rfl

end Dma

namespace Mvi

theorem printable_with (command : Mvi) {operand : String} (inked : IsInked operand) :
    (command.phraseWith operand).Printable := by
  have destination_inked := isInked_name command.destination
  have mnemonic_inked : IsInked "MVI" := by decide
  rw [phraseWith]
  split
  · exact ⟨⟨_, rfl, ⟨le_rfl, by simp, by simp⟩⟩, by simp [*]⟩
  · rename_i condition held
    have condition_inked := isInked_name condition
    exact ⟨⟨_, rfl, ⟨by simp, by simp, by simpa using Mnemonic.find?_condition condition⟩⟩, by simp [*]⟩

theorem Legal.natAbs_lt {command : Mvi} (legal : command.Legal) : command.immediate.natAbs < 0x8000000000000000 := by
  unfold Legal at legal
  split at legal <;> omega

theorem phraseWith_injective (command : Mvi) : Function.Injective command.phraseWith := by
  intro operand other same
  rw [phraseWith, phraseWith] at same
  split at same <;> simpa using same

theorem parse_phraseWith {scope : Scope} {command : Mvi} (legal : command.Legal) {operand : String} :
    parse scope (command.phraseWith operand) = .ok command ↔
      (if command.destination = .pc then scope.labelValue operand else scope.constantValue operand) =
        .ok command.immediate := by
  simp only [parse_eq_ok, legal, true_and, command.phraseWith_injective.eq_iff, exists_eq_left']

theorem parse_phrase (scope : Scope) {command : Mvi} (legal : command.Legal) :
    parse scope command.phrase = .ok command := by
  have numeral := Numeral.read?_immediate legal.natAbs_lt
  refine (parse_phraseWith legal).mpr ?_
  rw [Scope.labelValue_of_number numeral, Scope.constantValue_of_number numeral, ite_self]

end Mvi

namespace Jump

theorem inked_with (command : Jump) {operand : String} (inked : IsInked operand) :
    ∀ token ∈ command.phraseWith operand, IsInked token := by
  have mnemonic_inked : IsInked "JMP" := by decide
  rw [phraseWith]
  split
  · simp [*]
  · rename_i condition held
    have condition_inked := isInked_name condition
    simp [*]

/-- The target of a conditional jump stands where the next phrase could begin, so it must not be a mnemonic. -/
theorem printable_with (command : Jump) {operand : String} (inked : IsInked operand)
    (plain : command.condition.isSome → Mnemonic.find? operand = none) :
    (command.phraseWith operand).Printable := by
  refine ⟨?_, command.inked_with inked⟩
  rw [phraseWith]
  split
  · exact ⟨_, rfl, ⟨le_rfl, by simp, by simp⟩⟩
  · rename_i condition held
    exact ⟨_, rfl, ⟨by simp, by simp, by simpa [held] using plain⟩⟩

theorem phraseWith_injective (command : Jump) : Function.Injective command.phraseWith := by
  intro operand other same
  rw [phraseWith, phraseWith] at same
  split at same <;> simpa using same

theorem parse_phraseWith {scope : Scope} {command : Jump} (legal : command.Legal) {operand : String} :
    parse scope (command.phraseWith operand) = .ok command ↔
      scope.labelValue operand = .ok (command.target.toNat : Int) := by
  simp only [parse_eq_ok, legal, true_and, command.phraseWith_injective.eq_iff, exists_eq_left']

theorem parse_phrase (scope : Scope) {command : Jump} (legal : command.Legal) :
    parse scope command.phrase = .ok command :=
  (parse_phraseWith legal).mpr (Scope.labelValue_of_number (Numeral.read?_byte command.target))

end Jump

namespace Special

theorem printable (command : Special) : command.phrase.Printable := by
  cases command with
  | stop op =>
    exact ⟨by cases op <;> exact ⟨_, rfl, Mnemonic.takes_of_fixed rfl rfl⟩, by simpa [phrase] using isInked_name op⟩
  | loop op =>
    exact ⟨by cases op <;> exact ⟨_, rfl, Mnemonic.takes_of_fixed rfl rfl⟩, by simpa [phrase] using isInked_name op⟩
  | dma command => exact command.printable
  | mvi command => exact command.printable_with (Numeral.isInked_immediate _)
  | jump command =>
    exact command.printable_with (Numeral.isInked_toString _)
      fun _ => Mnemonic.find?_of_number (Numeral.read?_byte command.target)

theorem parse_mvi {scope : Scope} {command : Mvi} {operand : String} :
    Command.parse scope (command.phraseWith operand) = .ok (some (.special (.mvi command))) ↔
      Mvi.parse scope (command.phraseWith operand) = .ok command := by
  have routed : Command.parse scope (command.phraseWith operand) =
      (Mvi.parse scope (command.phraseWith operand) >>= fun command => return some (.special (.mvi command))) := by
    rw [Mvi.phraseWith]
    split <;> rfl
  rw [routed, bind_eq_ok]
  simp [pure_eq_ok]

theorem parse_jump {scope : Scope} {command : Jump} {operand : String} :
    Command.parse scope (command.phraseWith operand) = .ok (some (.special (.jump command))) ↔
      Jump.parse scope (command.phraseWith operand) = .ok command := by
  have routed : Command.parse scope (command.phraseWith operand) =
      (Jump.parse scope (command.phraseWith operand) >>= fun command => return some (.special (.jump command))) := by
    rw [Jump.phraseWith]
    split <;> rfl
  rw [routed, bind_eq_ok]
  simp [pure_eq_ok]

theorem exists_of_parse_short_jump {scope : Scope} {operand : String} {parsed : Option Command}
    (read : Command.parse scope ["JMP", operand] = .ok parsed) :
    ∃ command : Jump, command.condition = none ∧ parsed = some (.special (.jump command)) := by
  have routed : Command.parse scope ["JMP", operand] =
      (Jump.parse scope ["JMP", operand] >>= fun command => return some (.special (.jump command))) := rfl
  rw [routed, bind_eq_ok] at read
  obtain ⟨command, read, made⟩ := read
  obtain ⟨-, target, written, -⟩ := Jump.parse_eq_ok.mp read
  refine ⟨command, ?_, (pure_eq_ok.mp made).symm⟩
  cases held : command.condition with
  | none => rfl
  | some condition => simp [Jump.phraseWith, held] at written

theorem parse_phrase (scope : Scope) {command : Special} (legal : command.Legal) :
    Command.parse scope command.phrase = .ok (some (.special command)) := by
  cases command with
  | stop op => cases op <;> rfl
  | loop op => cases op <;> rfl
  | dma command =>
    have routed : Command.parse scope command.phrase =
        (Dma.parse scope command.phrase >>= fun command => return some (.special (.dma command))) := by
      cases held : command.hold <;> cases toward : command.direction <;>
        simp only [Dma.phrase, Dma.mnemonic, held, toward] <;> rfl
    rw [phrase, routed, Dma.parse_phrase scope legal]
    rfl
  | mvi command => exact parse_mvi.mpr (Mvi.parse_phrase scope legal)
  | jump command => exact parse_jump.mpr (Jump.parse_phrase scope legal)

end Special

end DspAsm
