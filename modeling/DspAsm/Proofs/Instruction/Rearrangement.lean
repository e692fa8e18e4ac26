import DspAsm.Proofs.Instruction.Assembly

namespace DspAsm

inductive PhraseEdit : List Phrase → List Phrase → Prop
  | order {written arranged : List Phrase} (same : written.Perm arranged) : PhraseEdit written arranged
  | idle (before after : List Phrase) : PhraseEdit (before ++ after) (before ++ ["NOP"] :: after)

def Rearranges (written arranged : List Phrase) : Prop :=
  Relation.EqvGen PhraseEdit written arranged

def Phrase.isBusy (phrase : Phrase) : Bool :=
  phrase ≠ ["NOP"]

theorem Phrase.isBusy_eq_false {phrase : Phrase} : phrase.isBusy = false ↔ phrase = ["NOP"] := by
  simp [isBusy]

section

variable {scope : Scope} {written arranged : List Phrase} {commands : List Command}

theorem PhraseEdit.busy_perm (edit : PhraseEdit written arranged) :
    (written.filter Phrase.isBusy).Perm (arranged.filter Phrase.isBusy) := by
  cases edit with
  | order same => exact same.filter _
  | idle before after =>
    have nop : Phrase.isBusy ["NOP"] = false := Phrase.isBusy_eq_false.mpr rfl
    simp [nop]

theorem Rearranges.busy_perm (rearranges : Rearranges written arranged) :
    (written.filter Phrase.isBusy).Perm (arranged.filter Phrase.isBusy) := by
  induction rearranges with
  | rel _ _ edit => exact edit.busy_perm
  | refl => exact .refl _
  | symm _ _ _ ih => exact ih.symm
  | trans _ _ _ _ _ first second => exact first.trans second

theorem Rearranges.wellFormed (rearranges : Rearranges written arranged)
    (grammatical : ∀ phrase ∈ written, phrase.WellFormed) : ∀ phrase ∈ arranged, phrase.WellFormed := by
  intro phrase member
  cases busy : phrase.isBusy with
  | false =>
    rw [Phrase.isBusy_eq_false.mp busy]
    exact printable_nop.wellFormed
  | true =>
    have kept := rearranges.busy_perm.mem_iff.mpr (List.mem_filter.mpr ⟨member, busy⟩)
    exact grammatical phrase (List.mem_filter.mp kept).1

/-! ## Phrases read one by one -/

theorem reads_cons {phrase : Phrase} :
    Reads scope (phrase :: written) commands ↔ ∃ result later, Command.parse scope phrase = .ok result ∧
      Reads scope written later ∧ result.toList ++ later = commands := by
  simp only [Reads, mapM_eq_ok, List.forall₂_cons_left_iff]
  constructor
  · rintro ⟨_, ⟨result, parsed, read, run, rfl⟩, rfl⟩
    refine ⟨result, _, read, ⟨parsed, run, rfl⟩, ?_⟩
    cases result <;> rfl
  · rintro ⟨result, _, read, ⟨parsed, run, rfl⟩, rfl⟩
    refine ⟨_, ⟨result, parsed, read, run, rfl⟩, ?_⟩
    cases result <;> rfl

theorem reads_filter_busy : Reads scope (written.filter Phrase.isBusy) commands ↔ Reads scope written commands := by
  induction written generalizing commands with
  | nil => rfl
  | cons phrase written ih =>
    cases busy : phrase.isBusy with
    | true =>
      rw [List.filter_cons_of_pos busy, reads_cons, reads_cons]
      simp only [ih]
    | false =>
      have idle : Command.parse scope phrase = .ok none := by
        rw [Phrase.isBusy_eq_false.mp busy]
        rfl
      rw [List.filter_cons_of_neg (by simp [busy]), reads_cons, idle, ih]
      simp

theorem Reads.perm (same : written.Perm arranged) (reads : Reads scope written commands) :
    ∃ moved, Reads scope arranged moved ∧ commands.Perm moved := by
  obtain ⟨parsed, run, rfl⟩ := reads
  obtain ⟨parsed', run', moved⟩ := List.perm_comp_forall₂ same.symm (mapM_eq_ok.mp run)
  exact ⟨_, ⟨parsed', mapM_eq_ok.mpr run', rfl⟩, (moved.filterMap id).symm⟩

theorem Rearranges.reads (rearranges : Rearranges written arranged) (reads : Reads scope written commands) :
    ∃ moved, Reads scope arranged moved ∧ commands.Perm moved := by
  obtain ⟨moved, busy, same⟩ := (reads_filter_busy.mpr reads).perm rearranges.busy_perm
  exact ⟨moved, reads_filter_busy.mp busy, same⟩

end

/-! ## Lines -/

namespace Instruction

variable {scope : Scope} {tokens tokens' : List String} {written arranged : List Phrase} {instruction : Instruction}

theorem ofTokens_of_rearranges (divided : DspAsm.phrases tokens = .ok written)
    (divided' : DspAsm.phrases tokens' = .ok arranged) (rearranges : Rearranges written arranged)
    (made : ofTokens scope tokens = .ok instruction) : ofTokens scope tokens' = .ok instruction := by
  obtain ⟨commands, reads, made⟩ := (ofTokens_eq_ok divided).mp made
  obtain ⟨moved, reads', same⟩ := rearranges.reads reads
  exact (ofTokens_eq_ok divided').mpr ⟨moved, reads', (ofCommands_perm same).mp made⟩

/-- A line whose phrases are written in another order, with more or fewer phrases `NOP` among them, divides into just
these phrases and spells the same instruction, or none as before. -/
theorem ofTokens_rearranged (scope : Scope) (divided : DspAsm.phrases tokens = .ok written)
    (rearranges : Rearranges written arranged) :
    DspAsm.phrases arranged.flatten = .ok arranged ∧
      ∀ instruction, ofTokens scope arranged.flatten = .ok instruction ↔ ofTokens scope tokens = .ok instruction := by
  have regrouped : DspAsm.phrases arranged.flatten = .ok arranged :=
    phrases_flatten (rearranges.wellFormed (phrases_eq_ok.mp divided).2)
  refine ⟨regrouped, fun instruction => ?_⟩
  constructor
  · exact ofTokens_of_rearranges regrouped divided (.symm _ _ rearranges)
  · exact ofTokens_of_rearranges divided regrouped rearranges

theorem ofTokens_rearranged_move :
    DspAsm.phrases ["MOV", "ADD", "PL", "AND"] = .ok [["MOV", "ADD", "PL"], ["AND"]] ∧
      Rearranges [["MOV", "ADD", "PL"], ["AND"]] [["AND"], ["NOP"], ["MOV", "ADD", "PL"]] ∧
      DspAsm.phrases ["AND", "NOP", "MOV", "ADD", "PL"] = .ok [["AND"], ["NOP"], ["MOV", "ADD", "PL"]] ∧
      ofTokens { constants := SymbolTable.empty.insert "ADD" 5 } ["AND", "NOP", "MOV", "ADD", "PL"] =
        .ok (.compound { alu := .and, d1Bus := .movImm 5 .pl }) := by
  have divided : DspAsm.phrases ["MOV", "ADD", "PL", "AND"] = .ok [["MOV", "ADD", "PL"], ["AND"]] := by rfl
  have rearranges : Rearranges [["MOV", "ADD", "PL"], ["AND"]] [["AND"], ["NOP"], ["MOV", "ADD", "PL"]] :=
    .trans _ _ _ (.rel _ _ (.order (.swap ..))) (.rel _ _ (.idle [["AND"]] [["MOV", "ADD", "PL"]]))
  have made : ofTokens { constants := SymbolTable.empty.insert "ADD" 5 } ["MOV", "ADD", "PL", "AND"] =
      .ok (.compound { alu := .and, d1Bus := .movImm 5 .pl }) := by rfl
  obtain ⟨regrouped, same⟩ := ofTokens_rearranged { constants := SymbolTable.empty.insert "ADD" 5 } divided rearranges
  exact ⟨divided, rearranges, regrouped, (same _).mpr made⟩

end Instruction

end DspAsm
