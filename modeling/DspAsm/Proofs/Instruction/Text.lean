import DspAsm.Proofs.Listing.Row

namespace DspAsm
open Text

def Spaced : List String → List Char → Prop
  | [], line => line = []
  | [text], line => line = text.toList
  | text :: next :: later, line => ∃ gap rest, line = text.toList ++ (gap ++ rest) ∧ gap ≠ [] ∧
      (∀ c ∈ gap, isBlank c = true) ∧ Spaced (next :: later) rest

theorem spaced_intercalate {gap : String} (written : gap.toList ≠ []) (blank : ∀ c ∈ gap.toList, isBlank c = true)
    (texts : List String) : Spaced texts (gap.intercalate texts).toList := by
  induction texts with
  | nil => rfl
  | cons text texts ih =>
    cases texts with
    | nil => rw [String.intercalate_singleton, Spaced]
    | cons next later =>
      refine ⟨gap.toList, _, ?_, written, blank, ih⟩
      rw [String.intercalate_cons_cons, String.toList_append, String.toList_append, List.append_assoc]

theorem tokens_spaced {written : List Phrase} (inked : ∀ phrase ∈ written, ∀ token ∈ phrase, IsInked token)
    {line : List Char} (spaced : Spaced (written.map Phrase.text) line) : tokens line = written.flatten := by
  induction written generalizing line with
  | nil =>
    rw [List.map_nil, Spaced] at spaced
    rw [spaced]
    rfl
  | cons phrase written ih =>
    obtain ⟨row, read⟩ := Phrase.tokens_text (inked phrase List.mem_cons_self)
    cases written with
    | nil =>
      rw [List.map_singleton, Spaced] at spaced
      rw [spaced, read, List.flatten_singleton]
    | cons next written =>
      obtain ⟨gap, rest, rfl, present, blank, later⟩ := spaced
      have separates : ∀ c ∈ gap, isSeparator c = true := by
        intro c member
        rw [isSeparator, blank c member, Bool.true_or]
      rw [tokens_append_gap (row.not_mem (by decide) (by decide)) present separates, read,
        ih (fun phrase member => inked phrase (List.mem_cons_of_mem _ member)) later, List.flatten_cons (l := phrase)]

namespace Instruction

theorem printable {instruction : Instruction} {phrase : Phrase} (member : phrase ∈ instruction.phrases) :
    phrase.Printable := by
  cases instruction with
  | compound slots => exact Slots.printable member
  | special command =>
    rw [List.mem_singleton.mp member]
    exact command.printable

theorem ofTokens_phrases {scope : Scope} {instruction : Instruction} :
    ofTokens scope instruction.phrases.flatten = .ok instruction ↔ instruction.Legal := by
  constructor
  · exact ofTokens_legal
  · intro legal
    cases instruction with
    | compound slots => exact ofTokens_compound scope slots
    | special command =>
      rw [phrases, List.flatten_singleton]
      exact (ofTokens_eq_special command.printable).mpr (Special.parse_phrase scope legal)

/-- The text of an instruction spells that instruction exactly when it is legal, whatever symbols are known. -/
theorem ofTokens_text_iff (scope : Scope) (instruction : Instruction) {line : List Char}
    (spaced : Spaced (instruction.phrases.map Phrase.text) line) :
    ofTokens scope (tokens line) = .ok instruction ↔ instruction.Legal := by
  rw [tokens_spaced (fun _ member => (printable member).inked) spaced]
  exact ofTokens_phrases

theorem ofTokens_text_full_slots :
    Spaced (phrases (.compound ⟨.ad2, .movSrcXMulP .mc0, .movSrcYAluA .ram1, .movImm 255 .ct0⟩) |>.map Phrase.text)
        "AD2\n\tMOV MC0,X\n\tMOV MUL,P\n\tMOV RAM1,Y\n\tMOV ALU,A\n\tMOV #255,CT0".toList ∧
      ofTokens { constants := (SymbolTable.empty.insert "MC0" 1).insert "255" 2 }
          (tokens "AD2\n\tMOV MC0,X\n\tMOV MUL,P\n\tMOV RAM1,Y\n\tMOV ALU,A\n\tMOV #255,CT0".toList) =
        .ok (.compound ⟨.ad2, .movSrcXMulP .mc0, .movSrcYAluA .ram1, .movImm 255 .ct0⟩) := by
  have spaced := @spaced_intercalate "\n\t" (by decide) (by simp [isBlank, blankRanges])
    (phrases (.compound ⟨.ad2, .movSrcXMulP .mc0, .movSrcYAluA .ram1, .movImm 255 .ct0⟩) |>.map Phrase.text)
  have written : "\n\t".intercalate (phrases (.compound ⟨.ad2, .movSrcXMulP .mc0, .movSrcYAluA .ram1,
      .movImm 255 .ct0⟩) |>.map Phrase.text) =
      "AD2\n\tMOV MC0,X\n\tMOV MUL,P\n\tMOV RAM1,Y\n\tMOV ALU,A\n\tMOV #255,CT0" := by rfl
  rw [written] at spaced
  exact ⟨spaced, (ofTokens_text_iff _ _ spaced).mpr trivial⟩

end Instruction

end DspAsm
