import DspAsm.Proofs.Instruction.Assembly
import DspAsm.Proofs.Program.Survey

namespace DspAsm
open Text

namespace Program

theorem assemble_eq_ok {source : String} {program : Program} :
    assemble source = .ok program ↔ ∃ survey, Survey.ofText source = .ok survey ∧
      survey.pending.size ≤ programCapacity ∧
      survey.pending.toList.mapM (fun place => Instruction.ofTokens survey.scope place.tokens) =
        .ok program.instructions ∧ survey.scope = program.scope := by
  simp only [assemble, bind_eq_ok, check_eq_ok, pure_eq_ok, mapM_eq_ok, locate_eq_ok, Nat.not_lt]
  constructor
  · rintro ⟨survey, surveyed, fits, instructions, run, rfl⟩
    exact ⟨survey, surveyed, fits, run, rfl⟩
  · rintro ⟨survey, surveyed, fits, run, same⟩
    exact ⟨survey, surveyed, fits, program.instructions, run, by rw [same]⟩

/-- The program that some lines spell out. Each label stands for the number of instructions before its declaration, and
every instruction is read with all labels and constants known, also those of later lines. -/
structure IsAssemblyOf (program : Program) (rows : List SourceLine) : Prop where
  length_eq : program.length = (rows.filterMap SourceLine.instruction?).length
  length_le : program.length ≤ programCapacity
  declared_once : (rows.filterMap SourceLine.label?).Nodup
  mem_labels : ∀ name index, (name, index) ∈ program.scope.labels.entries ↔ SourceLine.Declares rows name index
  labels_inside : ∀ name index, (name, index) ∈ program.scope.labels.entries →
    index ≤ program.length ∧ index < programCapacity
  defined : ∀ definition, .constant definition ∈ rows → (SourceLine.constant definition).constant? ≠ none
  defined_once : ((rows.filterMap SourceLine.constant?).map Prod.fst).Nodup
  mem_constants : ∀ name value, (name, value) ∈ program.scope.constants.entries ↔
    ∃ row ∈ rows, row.constant? = some (name, value)
  instructions : List.Forall₂ (fun tokens instruction => Instruction.ofTokens program.scope tokens = .ok instruction)
    (rows.filterMap SourceLine.instruction?) program.instructions

theorem isAssemblyOf_of_assemble {source : String} {program : Program} (assembled : assemble source = .ok program) :
    program.IsAssemblyOf (SourceLine.ofText source) := by
  obtain ⟨survey, surveyed, fits, run, same⟩ := assemble_eq_ok.mp assembled
  have covers := Survey.covers_ofText surveyed
  have consistent := Survey.exists_ofText_iff.mp ⟨survey, surveyed⟩
  have size : survey.pending.size = program.length := (mapM_eq_ok.mp run).length_eq
  have length_eq : program.length = ((SourceLine.ofText source).filterMap SourceLine.instruction?).length :=
    size.symm.trans covers.size_eq
  rw [same] at run
  have mem_labels := covers.mem_labels
  have mem_constants := covers.mem_constants
  rw [same] at mem_labels mem_constants
  refine ⟨length_eq, size ▸ fits, consistent.declared_once, mem_labels, ?_, consistent.defined,
    consistent.defined_once, mem_constants, ?_⟩
  · intro name index bound
    have declared := (mem_labels name index).mp bound
    exact ⟨length_eq ▸ declared.le, consistent.declared_inside name index declared⟩
  · rw [← covers.tokens_eq, List.forall₂_map_left_iff]
    exact mapM_eq_ok.mp run

theorem IsAssemblyOf.consistent {program : Program} {rows : List SourceLine} (spelled : program.IsAssemblyOf rows) :
    SourceLine.Consistent rows where
  declared_once := spelled.declared_once
  declared_inside name index declared := (spelled.labels_inside name index ((spelled.mem_labels _ _).mpr declared)).2
  defined := spelled.defined
  defined_once := spelled.defined_once

theorem assemble_of_isAssemblyOf {source : String} {program : Program}
    (spelled : program.IsAssemblyOf (SourceLine.ofText source)) : assemble source = .ok program := by
  obtain ⟨survey, surveyed⟩ := Survey.exists_ofText_iff.mpr spelled.consistent
  have covers := Survey.covers_ofText surveyed
  -- The lines determine the symbols, so those of the survey are those of the program.
  have scope : survey.scope = program.scope := by
    apply Scope.eq_of_mem_iff
    · intro entry
      rw [covers.mem_labels, spelled.mem_labels]
    · intro entry
      rw [covers.mem_constants, spelled.mem_constants]
  refine assemble_eq_ok.mpr ⟨survey, surveyed, ?_, ?_, scope⟩
  · rw [covers.size_eq, ← spelled.length_eq]
    exact spelled.length_le
  · have instructions := spelled.instructions
    rw [← covers.tokens_eq, List.forall₂_map_left_iff, ← scope] at instructions
    exact mapM_eq_ok.mpr instructions

/-- Assembling in two passes gives the program that the lines of the source spell out, and fails where they spell out
none. -/
theorem assemble_eq_ok_iff_isAssemblyOf (source : String) (program : Program) :
    assemble source = .ok program ↔
      ∃ rows, List.Forall₂ SourceLine.Spells (lines source.toList) rows ∧ program.IsAssemblyOf rows := by
  simp only [SourceLine.forall₂_spells, exists_eq_left']
  constructor
  · intro assembled
    exact isAssemblyOf_of_assemble assembled
  · intro spelled
    exact assemble_of_isAssemblyOf spelled

structure Sound (program : Program) : Prop where
  legal : ∀ instruction ∈ program.instructions, instruction.Legal
  length_le : program.length ≤ programCapacity
  labels : ∀ name index, (name, index) ∈ program.scope.labels.entries →
    index ≤ program.length ∧ index < programCapacity

theorem assemble_sound {source : String} {program : Program} (assembled : assemble source = .ok program) :
    program.Sound := by
  have spelled := isAssemblyOf_of_assemble assembled
  refine ⟨fun instruction member => ?_, spelled.length_le, spelled.labels_inside⟩
  obtain ⟨tokens, -, made⟩ := exists_of_mem_mapM (mapM_eq_ok.mpr spelled.instructions) member
  exact Instruction.ofTokens_legal made

end Program

end DspAsm
