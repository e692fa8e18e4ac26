import DspAsm.Proofs.Listing.RoundTrip

/-!
Labels whose stem is any letters and digits.

The labels of branch targets are spelled by a stem and two digits, so they may be numerals: the stem `1` gives the label
`100` to the first instruction. A branch reads its operand as a numeral before it looks for a label. Main statement:
what the listing of a disassembled program assembles to does not depend on the labels, unless one of them is a numeral
for a number other than its target.
-/

namespace DspAsm

namespace Program

variable {program : Program}

theorem Labelled.isFirstLabel {stem : String} {length : Nat} {targets : List Nat} {scope : Scope}
    (labelled : Labelled stem length targets scope) {target : Nat} {label : String} :
    scope.IsFirstLabel target label ↔ (target ∈ targets ∧ target < length) ∧ label = targetName stem target := by
  rw [Scope.IsFirstLabel, labelled.mem_labels]
  refine and_iff_left_of_imp ?_
  rintro ⟨-, rfl⟩ other bound
  rw [((labelled.mem_labels other target).mp bound).2]

theorem Labelled.faithful {stem : String} {scope : Scope}
    (labelled : Labelled stem program.length (program.instructions.filterMap Instruction.target?) scope)
    {instruction : Instruction} (member : instruction ∈ program.instructions) :
    instruction.Faithful scope ↔ ∀ target, instruction.BranchesTo target → target < program.length →
      ∀ number, Numeral.read? (targetName stem target) = some number → number = target := by
  simp only [Instruction.Faithful, labelled.isFirstLabel]
  constructor
  · intro faithful target branches inside
    have listed := List.mem_filterMap.mpr ⟨instruction, member, Instruction.target?_eq_some.mpr branches⟩
    exact faithful target _ branches ⟨⟨listed, inside⟩, rfl⟩
  · rintro denotes target label branches ⟨⟨-, inside⟩, rfl⟩
    exact denotes target branches inside

theorem assemble_listing_without_labels {layout : Layout} (unmarked : layout.autoLabels = false) {bytes : List UInt8}
    (read : ofBytes layout bytes = .ok program) : assemble (program.listing layout) = .ok program := by
  obtain ⟨instructions, scope⟩ := program
  cases scope_eq_of_ofBytes unmarked read
  have unlabelled (name : String) (index : Nat) : (name, index) ∉ SymbolTable.empty.entries := List.not_mem_nil
  refine assemble_listing (ofBytes_sound read) (fun entry bound => absurd bound (unlabelled _ _)) ?_ layout
  rintro instruction - ⟨condition, target, label, -, ⟨bound, -⟩, -⟩
  exact unlabelled _ _ bound

/-- The listing of a program with labels for its branch targets assembles to the same words as its listing without
labels exactly when the label of each branch target, if it is a numeral, denotes that target. -/
theorem assemble_listing_autoLabels_iff (layout : Layout)
    (spelled : (layout.labelStem.toList.all fun c => c.isAlphanum || c == '_') = true) {bytes : List UInt8}
    (read : ofBytes { layout with autoLabels := true } bytes = .ok program) :
    ∃ plain again, ofBytes { layout with autoLabels := false } bytes = .ok plain ∧
      assemble (plain.listing { layout with autoLabels := false }) = .ok again ∧ again.words = program.words ∧
      ((∃ relabelled, assemble (program.listing { layout with autoLabels := true }) = .ok relabelled ∧
          relabelled.words = again.words) ↔
        ∀ instruction ∈ program.instructions, ∀ target, instruction.BranchesTo target → target < program.length →
          ∀ number, Numeral.read? (targetName layout.labelStem target) = some number → number = target) := by
  have sound := ofBytes_sound read
  have labelled := labelled_of_ofBytes rfl read
  have legible : program.scope.Legible := by
    rintro ⟨name, index⟩ bound
    rw [((labelled.mem_labels name index).mp bound).2]
    exact isName_targetName spelled index
  have unambiguous : ∀ instruction ∈ program.instructions, ¬ instruction.Ambiguous program.scope :=
    fun instruction member => not_ambiguous_of_labelled labelled (sound.legal instruction member)
  have unlabelled : ofBytes { layout with autoLabels := false } bytes = .ok { program with scope := {} } := by
    obtain ⟨whole, fits, decoded, -⟩ := ofBits_eq_ok.mp read
    exact ofBits_eq_ok.mpr ⟨whole, fits, decoded, rfl⟩
  refine ⟨_, _, unlabelled, assemble_listing_without_labels rfl unlabelled, rfl, ?_⟩
  calc
    _ ↔ ∀ instruction ∈ program.instructions, instruction.Faithful program.scope :=
      exists_assemble_legible_iff sound legible unambiguous _
    _ ↔ _ := forall₂_congr fun instruction member => labelled.faithful member

theorem assemble_listing_of_hexadecimal_stem :
    ∃ program, ofBytes { labelStem := "0x" } [0xd0, 0x00, 0x00, 0x01, 0xf8, 0x00, 0x00, 0x00] = .ok program ∧
      program.scope.labels = SymbolTable.empty.insert "0X01" 1 ∧ Numeral.read? "0X01" = some 1 ∧
      ∃ plain again, ofBytes { labelStem := "0x", autoLabels := false }
          [0xd0, 0x00, 0x00, 0x01, 0xf8, 0x00, 0x00, 0x00] = .ok plain ∧
        assemble (plain.listing { labelStem := "0x", autoLabels := false }) = .ok again ∧
        ∃ relabelled, assemble (program.listing { labelStem := "0x" }) = .ok relabelled ∧
          relabelled.words = again.words := by
  have read : ofBytes { labelStem := "0x" } [0xd0, 0x00, 0x00, 0x01, 0xf8, 0x00, 0x00, 0x00] = .ok
      ⟨[.special (.jump ⟨none, 1⟩), .special (.stop .stopInterrupt)],
        { labels := SymbolTable.empty.insert "0X01" 1 }⟩ := by rfl
  have numeral : Numeral.read? "0X01" = some 1 := by decide +kernel
  obtain ⟨plain, again, unlabelled, assembled, -, same⟩ :=
    assemble_listing_autoLabels_iff { labelStem := "0x" } (by decide) read
  refine ⟨_, read, rfl, numeral, plain, again, unlabelled, assembled, same.mpr ?_⟩
  intro instruction member target branches inside number denotes
  have one : target = 1 := by
    simp only [List.mem_cons, List.not_mem_nil, or_false] at member
    rcases member with rfl | rfl
    · exact branches.symm
    · cases branches
  subst one
  exact (Option.some.inj (numeral.symm.trans denotes)).symm

/-- With the stem `1`, the jump to the first instruction is listed as a jump to `100`, and read as that. -/
theorem not_assemble_listing_of_decimal_stem :
    ∃ program plain again relabelled, ofBytes { labelStem := "1" } [0xd0, 0x00, 0x00, 0x00] = .ok program ∧
      ofBytes { labelStem := "1", autoLabels := false } [0xd0, 0x00, 0x00, 0x00] = .ok plain ∧
      assemble (plain.listing { labelStem := "1", autoLabels := false }) = .ok again ∧
      assemble (program.listing { labelStem := "1" }) = .ok relabelled ∧
      again.words = [0xd0000000] ∧ relabelled.words = [0xd0000064] :=
  ⟨_, _, _, _, rfl, rfl, rfl, rfl, by decide, by decide⟩

end Program

end DspAsm
