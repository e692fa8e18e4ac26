import DspAsm.Proofs.Listing.Row

/-!
Rows read back as the instructions they were written for, with two exceptions.

The target of a conditional jump is an operand that a jump may do without. A label there that is spelled like a
mnemonic is taken for the start of the next phrase. And a label that is spelled like a numeral is taken for the number.
-/

namespace DspAsm

/-- A conditional jump to an index whose first label is a mnemonic. -/
def Instruction.Ambiguous (scope : Scope) (instruction : Instruction) : Prop :=
  ∃ condition target label, instruction = .special (.jump ⟨some condition, target⟩) ∧
    scope.IsFirstLabel target.toNat label ∧ ∃ mnemonic ∈ Mnemonic.all, mnemonic.name = label

/-- If the first label of the index that the instruction branches to is a numeral, it denotes that index. -/
def Instruction.Faithful (scope : Scope) (instruction : Instruction) : Prop :=
  ∀ target label, instruction.BranchesTo target → scope.IsFirstLabel target label →
    ∀ number, Numeral.read? label = some number → number = target

variable {scope reader : Scope}

/-! ## Operands -/

theorem Jump.labelValue_listingOperand (same : reader.labels = scope.labels) (legible : scope.Legible)
    (command : Jump) :
    reader.labelValue (command.listingOperand scope) = .ok (command.target.toNat : Int) ↔
      Instruction.Faithful scope (.special (.jump command)) := by
  rw [listingOperand]
  cases found : (scope.labelsAt command.target.toNat).head? with
  | none =>
    refine iff_of_true (Scope.labelValue_of_number (Numeral.read?_byte command.target)) ?_
    rintro target label rfl first
    rw [Scope.head?_labelsAt.mpr first] at found
    cases found
  | some label =>
    have first := Scope.head?_labelsAt.mp found
    rw [Option.getD_some, Scope.labelValue_eq_index_iff (legible _ first.1) (same ▸ first.1)]
    constructor
    · rintro denotes target other rfl first'
      cases found.symm.trans (Scope.head?_labelsAt.mpr first')
      exact denotes
    · intro faithful
      exact faithful _ label rfl first

theorem Mvi.value_listingOperand (same : reader.labels = scope.labels) (legible : scope.Legible) {command : Mvi}
    (legal : command.Legal) :
    (if command.destination = .pc then reader.labelValue (command.listingOperand scope)
      else reader.constantValue (command.listingOperand scope)) = .ok command.immediate ↔
      Instruction.Faithful scope (.special (.mvi command)) := by
  rw [listingOperand]
  cases found : command.target?.bind fun target => (scope.labelsAt target).head? with
  | none =>
    have numeral := Numeral.read?_immediate legal.natAbs_lt
    rw [Option.getD_none, Scope.labelValue_of_number numeral, Scope.constantValue_of_number numeral, ite_self]
    refine iff_of_true rfl ?_
    intro target label aims first
    rw [target?_eq_some.mpr aims, Option.bind_some, Scope.head?_labelsAt.mpr first] at found
    cases found
  | some label =>
    obtain ⟨target, aims, listed⟩ := Option.bind_eq_some_iff.mp found
    obtain ⟨loads, aimed⟩ := target?_eq_some.mp aims
    have first := Scope.head?_labelsAt.mp listed
    rw [if_pos loads, Option.getD_some, aimed, Scope.labelValue_eq_index_iff (legible _ first.1) (same ▸ first.1)]
    constructor
    · intro denotes other label' aims' first'
      cases aims.symm.trans (target?_eq_some.mpr aims')
      cases listed.symm.trans (Scope.head?_labelsAt.mpr first')
      exact denotes
    · intro faithful
      exact faithful target label ⟨loads, aimed⟩ first

/-! ## Instructions -/

namespace Instruction

theorem faithful_of_named (named : scope.Named) (instruction : Instruction) : instruction.Faithful scope := by
  intro target label _ first number read
  rw [Numeral.read?_identifier (named _ first.1)] at read
  cases read

theorem find?_listingOperand {command : Jump} (plain : ¬ Ambiguous scope (.special (.jump command)))
    (conditional : command.condition.isSome) : Mnemonic.find? (command.listingOperand scope) = none := by
  rw [Jump.listingOperand]
  cases found : (scope.labelsAt command.target.toNat).head? with
  | none => exact Mnemonic.find?_of_number (Numeral.read?_byte command.target)
  | some label =>
    obtain ⟨condition, held⟩ := Option.isSome_iff_exists.mp conditional
    rw [Option.getD_some, Mnemonic.find?_eq_none]
    intro mnemonic listed spelled
    refine plain ⟨condition, command.target, label, ?_, Scope.head?_labelsAt.mp found, mnemonic, listed, spelled⟩
    rw [← held]

theorem ofTokens_rowTokens (reader : Scope) (same : reader.labels = scope.labels) (legible : scope.Legible)
    {instruction : Instruction} (legal : instruction.Legal) (plain : ¬ instruction.Ambiguous scope) :
    ofTokens reader (instruction.rowTokens scope) = .ok instruction ↔ instruction.Faithful scope := by
  match instruction with
  | compound slots => exact iff_of_true (ofTokens_compound reader slots) nofun
  | special command =>
    rw [rowTokens, Special.listingPhrase_eq]
    match command with
    | .jump command =>
      have printable := command.printable_with (command.isInked_listingOperand legible) (find?_listingOperand plain)
      rw [ofTokens_eq_special printable, Special.parse_jump, ← command.labelValue_listingOperand same legible]
      exact Jump.parse_phraseWith legal
    | .mvi command =>
      have printable := command.printable_with (command.isInked_listingOperand legible)
      rw [ofTokens_eq_special printable, Special.parse_mvi, ← Mvi.value_listingOperand same legible legal]
      exact Mvi.parse_phraseWith legal
    | .stop op | .loop op | .dma command =>
      exact iff_of_true ((ofTokens_eq_special (Special.printable _)).mpr (Special.parse_phrase reader legal)) nofun

theorem phrases_ambiguous {condition label : String} {mnemonic : Mnemonic}
    (spelled : Mnemonic.find? label = some mnemonic) {written : List Phrase}
    (divided : DspAsm.phrases ["JMP", condition, label] = .ok written) :
    ∃ later, written = ["JMP", condition] :: later := by
  have taken : Mnemonic.Takes ⟨"JMP", .jump, 1, 2⟩ [condition] := ⟨le_rfl, by simp, by simp⟩
  have opened : DspAsm.phrases ["JMP", condition, label] =
      OpenPhrase.phrasesFrom ⟨⟨"JMP", .jump, 1, 2⟩, []⟩ ([condition] ++ [label]) := rfl
  rw [opened, OpenPhrase.phrasesFrom_operands taken, OpenPhrase.phrasesFrom_mnemonic taken.least spelled, bind_eq_ok]
    at divided
  obtain ⟨later, -, divided⟩ := divided
  exact ⟨later, (pure_eq_ok.mp divided).symm⟩

theorem exists_of_ofTokens_cut_jump {condition label : String} {mnemonic : Mnemonic}
    (spelled : Mnemonic.find? label = some mnemonic) {result : Instruction}
    (read : ofTokens reader ["JMP", condition, label] = .ok result) :
    ∃ command : Jump, command.condition = none ∧ result = .special (.jump command) := by
  simp only [ofTokens, bind_eq_ok] at read
  obtain ⟨written, divided, parsed, run, made⟩ := read
  obtain ⟨later, rfl⟩ := phrases_ambiguous spelled divided
  rw [List.mapM_cons, bind_eq_ok] at run
  obtain ⟨command, cut, run⟩ := run
  obtain ⟨commands, -, parsed⟩ := bind_eq_ok.mp run
  -- The phrases after the jump cannot give its condition back, so it does not matter what they are.
  obtain ⟨jump, unconditional, rfl⟩ := Special.exists_of_parse_short_jump cut
  rw [← pure_eq_ok.mp parsed, List.filterMap_cons_some (by rfl)] at made
  exact ⟨jump, unconditional, eq_of_ofCommands_special made⟩

theorem ofTokens_ambiguous {instruction result : Instruction} (ambiguous : instruction.Ambiguous scope)
    (read : ofTokens reader (instruction.rowTokens scope) = .ok result) : result ≠ instruction := by
  obtain ⟨condition, target, label, rfl, first, mnemonic, listed, rfl⟩ := ambiguous
  have row : rowTokens scope (.special (.jump ⟨some condition, target⟩)) =
      ["JMP", CodeTable.name condition, mnemonic.name] := by
    rw [rowTokens, Special.listingPhrase_eq]
    change Jump.phraseWith _ (Jump.listingOperand scope ⟨some condition, target⟩) = _
    rw [Jump.listingOperand, Scope.head?_labelsAt.mpr first]
    rfl
  obtain ⟨same, spelled⟩ := Mnemonic.exists_find?_name listed
  rw [row] at read
  obtain ⟨jump, unconditional, rfl⟩ := exists_of_ofTokens_cut_jump spelled read
  rintro same
  cases same
  cases unconditional

end Instruction

end DspAsm
