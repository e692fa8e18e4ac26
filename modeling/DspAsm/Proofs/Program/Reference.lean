import DspAsm.Program.Source
import DspAsm.Proofs.Listing.ReadBack

namespace DspAsm
open CodeTable (name)
open Text

def Instruction.ofLine (scope : Scope) (line : String) : Except Fault Instruction :=
  ofTokens scope (tokens line.toList)

inductive Branch where
  | jump (condition : Option Condition)
  | load (condition : Option Condition)

namespace Branch

def line (operand : String) : Branch → String
  | jump none => "JMP " ++ operand
  | jump (some condition) => "JMP " ++ name condition ++ "," ++ operand
  | load none => "MVI " ++ operand ++ ",PC"
  | load (some condition) => "MVI " ++ operand ++ ",PC," ++ name condition

def instruction (index : Nat) : Branch → Instruction
  | jump condition => .special (.jump ⟨condition, UInt8.ofNat index⟩)
  | load condition => .special (.mvi ⟨.pc, index, condition⟩)

def phrase (operand : String) : Branch → Phrase
  | jump condition => Jump.phraseWith ⟨condition, 0⟩ operand
  | load condition => Mvi.phraseWith ⟨.pc, 0, condition⟩ operand

variable {scope : Scope} {operand label : String} {index : Nat}

theorem line_eq_text (branch : Branch) (operand : String) : branch.line operand = (branch.phrase operand).text := by
  rcases branch with (_ | condition) | (_ | condition) <;>
    simp [line, phrase, Jump.phraseWith, Mvi.phraseWith, Phrase.text, String.append_assoc] <;> rfl

theorem ofLine_eq (inked : IsInked operand) (branch : Branch) :
    Instruction.ofLine scope (branch.line operand) = Instruction.ofTokens scope (branch.phrase operand) := by
  have spelled : ∀ token ∈ branch.phrase operand, IsInked token := by
    cases branch with
    | jump condition => exact Jump.inked_with _ inked
    | load condition => exact (Mvi.printable_with _ inked).inked
  rw [Instruction.ofLine, line_eq_text, (Phrase.tokens_text spelled).2]

theorem ofTokens_phrase (inked : IsInked operand) (value : scope.labelValue operand = .ok (index : Int))
    (near : index ≤ 127) (branch : Branch)
    (whole : (∃ condition, branch = jump (some condition)) → Mnemonic.find? operand = none) :
    Instruction.ofTokens scope (branch.phrase operand) = .ok (branch.instruction index) := by
  cases branch with
  | jump condition =>
    have target : (UInt8.ofNat index).toNat = index := by
      rw [UInt8.toNat_ofNat']
      omega
    have legal : Jump.Legal ⟨condition, UInt8.ofNat index⟩ := by
      rw [Jump.Legal, UInt8.le_iff_toNat_le, target]
      exact near
    have printable : (Jump.phraseWith ⟨condition, UInt8.ofNat index⟩ operand).Printable := by
      apply Jump.printable_with _ inked
      intro conditional
      obtain ⟨condition, rfl⟩ := Option.isSome_iff_exists.mp conditional
      exact whole ⟨condition, rfl⟩
    have parsed := (Jump.parse_phraseWith legal).mpr (by rw [value, target])
    exact (Instruction.ofTokens_eq_special printable).mpr (Special.parse_jump.mpr parsed)
  | load condition =>
    have legal : Mvi.Legal ⟨.pc, index, condition⟩ := by
      cases condition <;> simp [Mvi.Legal] <;> omega
    have printable := Mvi.printable_with ⟨.pc, index, condition⟩ inked
    have parsed := (Mvi.parse_phraseWith legal).mpr value
    exact (Instruction.ofTokens_eq_special printable).mpr (Special.parse_mvi.mpr parsed)

theorem ofTokens_phrase_cut {mnemonic : Mnemonic} (spelled : Mnemonic.find? label = some mnemonic)
    (condition : Condition) :
    Instruction.ofTokens scope ((jump (some condition)).phrase label) ≠
      .ok ((jump (some condition)).instruction index) := by
  intro read
  -- The jump ends before the label, so whatever is read has no condition.
  obtain ⟨command, unconditional, same⟩ := Instruction.exists_of_ofTokens_cut_jump spelled read
  cases same
  cases unconditional

/-- A label can be written for its index in every branch, except that it must not be a mnemonic behind the condition of
a jump. -/
theorem ofLine_label_iff (identifier : IsIdentifier label) (bound : (label, index) ∈ scope.labels.entries)
    (near : index ≤ 127) (branch : Branch) :
    Instruction.ofLine scope (branch.line (toString index)) = .ok (branch.instruction index) ∧
      (Instruction.ofLine scope (branch.line label) = Instruction.ofLine scope (branch.line (toString index)) ↔
        ¬ ((∃ condition, branch = jump (some condition)) ∧ ∃ mnemonic ∈ Mnemonic.all, mnemonic.name = label)) := by
  have numeral : Numeral.read? (toString index) = some (index : Int) := Numeral.read?_toString (by omega)
  have byIndex : Instruction.ofLine scope (branch.line (toString index)) = .ok (branch.instruction index) := by
    rw [ofLine_eq (Numeral.isInked_toString index)]
    exact ofTokens_phrase (Numeral.isInked_toString index) (Scope.labelValue_of_number numeral) near branch
      fun _ => Mnemonic.find?_of_number numeral
  refine ⟨byIndex, ?_⟩
  -- Numerals are tried before labels, and an identifier is none.
  have value : scope.labelValue label = .ok (index : Int) := by
    rw [Scope.labelValue_eq_index_iff identifier.isName bound, Numeral.read?_identifier identifier]
    simp
  rw [byIndex, ofLine_eq identifier.isInked]
  constructor
  · rintro built ⟨⟨condition, rfl⟩, mnemonic, listed, rfl⟩
    obtain ⟨same, spelled⟩ := Mnemonic.exists_find?_name listed
    exact ofTokens_phrase_cut spelled condition built
  · intro whole
    apply ofTokens_phrase identifier.isInked value near branch
    intro conditional
    rw [Mnemonic.find?_eq_none]
    intro mnemonic listed spelled
    exact whole ⟨conditional, mnemonic, listed, spelled⟩

theorem ofLine_label_end :
    ∃ program, Program.assemble "NOP\nEND: NOP" = .ok program ∧ IsIdentifier "END" ∧
      ("END", 1) ∈ program.scope.labels.entries ∧
      Instruction.ofLine program.scope "JMP END" = Instruction.ofLine program.scope "JMP 1" ∧
      Instruction.ofLine program.scope "MVI END,PC,NZ" = Instruction.ofLine program.scope "MVI 1,PC,NZ" := by
  have assembled : Program.assemble "NOP\nEND: NOP" = .ok
      ⟨[.nop, .nop], { labels := SymbolTable.empty.insert "END" 1 }⟩ := by rfl
  have identifier : IsIdentifier "END" := by decide
  have bound : ("END", 1) ∈ (SymbolTable.empty.insert "END" 1).entries := by decide
  have same (branch : Branch) (whole : ∀ condition, branch ≠ jump (some condition)) :=
    (@ofLine_label_iff { labels := SymbolTable.empty.insert "END" 1 } _ _ identifier bound (by decide) branch).2.mpr
      fun cut => cut.1.elim whole
  exact ⟨_, assembled, identifier, bound, same (jump none) nofun, same (load (some .nz)) nofun⟩

/-- Behind a condition the label `END` is the mnemonic, and the condition is taken for the target of the jump. -/
theorem ofLine_label_end_cut :
    ∃ program, Program.assemble "NOP\nEND: NOP" = .ok program ∧ IsIdentifier "END" ∧
      ("END", 1) ∈ program.scope.labels.entries ∧
      Instruction.ofLine program.scope "JMP NZ,1" = .ok (.special (.jump ⟨some .nz, 1⟩)) ∧
      Instruction.ofLine program.scope "JMP NZ,END" = .error (.unknownSymbol "NZ") :=
  ⟨_, rfl, by decide, by decide, rfl, rfl⟩

end Branch

end DspAsm
