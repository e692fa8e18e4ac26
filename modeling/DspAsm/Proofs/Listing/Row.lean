import DspAsm.Listing
import DspAsm.Program.Source
import DspAsm.Proofs.Instruction.Assembly
import DspAsm.Proofs.Symbol.Scope

namespace DspAsm
open Text

/-! ## The characters of a row -/

namespace Text

def isGap (c : Char) : Bool :=
  c == ' ' || c == ',' || c == '\t'

def IsRow (text : List Char) : Prop :=
  ∀ c ∈ text, isInk c = true ∨ isGap c = true

theorem isSeparator_of_isGap {c : Char} (gap : isGap c = true) : isSeparator c = true := by
  simp only [isGap, Bool.or_eq_true, beq_iff_eq] at gap
  rcases gap with (rfl | rfl) | rfl <;> decide

theorem IsInked.isRow {token : String} (inked : IsInked token) : IsRow token.toList :=
  fun _ member => .inl (inked.isInk_of_mem member)

namespace IsRow

variable {before after : List Char}

theorem not_mem (row : IsRow before) {mark : Char} (blot : isInk mark = false) (solid : isGap mark = false) :
    mark ∉ before := by
  intro member
  rcases row mark member with ink | gap
  · exact absurd ink (by simp [blot])
  · exact absurd gap (by simp [solid])

theorem append (row : IsRow before) (row' : IsRow after) : IsRow (before ++ after) := by
  intro c member
  rcases List.mem_append.mp member with member | member
  · exact row c member
  · exact row' c member

theorem gap_append {gap : List Char} (gaps : ∀ c ∈ gap, isGap c = true) (row : IsRow after) : IsRow (gap ++ after) :=
  append (fun c member => .inr (gaps c member)) row

theorem tokens_append (row : IsRow before) {gap : List Char} (written : gap ≠ []) (gaps : ∀ c ∈ gap, isGap c = true)
    (after : List Char) : tokens (before ++ (gap ++ after)) = tokens before ++ tokens after :=
  tokens_append_gap (row.not_mem (by decide) (by decide)) written
    (fun c member => isSeparator_of_isGap (gaps c member)) after

end IsRow

end Text

/-! ## Phrases -/

theorem tokens_operands {operands : List String} (inked : ∀ operand ∈ operands, IsInked operand) :
    IsRow (",".intercalate operands).toList ∧ tokens (",".intercalate operands).toList = operands := by
  induction operands with
  | nil => exact ⟨by simp [IsRow], rfl⟩
  | cons operand operands ih =>
    have head := inked operand List.mem_cons_self
    obtain ⟨row, read⟩ := ih fun operand member => inked operand (List.mem_cons_of_mem _ member)
    cases operands with
    | nil =>
      rw [String.intercalate_singleton]
      exact ⟨head.isRow, tokens_token head.isToken⟩
    | cons next later =>
      have gaps : ∀ c ∈ ",".toList, isGap c = true := by simp [isGap]
      rw [String.intercalate_cons_cons, String.toList_append, String.toList_append, List.append_assoc]
      refine ⟨head.isRow.append (.gap_append gaps row), ?_⟩
      rw [head.isRow.tokens_append (by decide) gaps, tokens_token head.isToken, read, List.singleton_append]

theorem Phrase.tokens_text {phrase : Phrase} (inked : ∀ token ∈ phrase, IsInked token) :
    IsRow phrase.text.toList ∧ tokens phrase.text.toList = phrase := by
  match phrase with
  | [] => exact ⟨by simp [text, IsRow], rfl⟩
  | [mnemonic] =>
    have head := inked mnemonic List.mem_cons_self
    exact ⟨head.isRow, tokens_token head.isToken⟩
  | mnemonic :: operand :: operands =>
    have head := inked mnemonic List.mem_cons_self
    have gaps : ∀ c ∈ " ".toList, isGap c = true := by simp [isGap]
    obtain ⟨row, read⟩ := tokens_operands fun token member => inked token (List.mem_cons_of_mem _ member)
    rw [text, String.toList_append, String.toList_append, List.append_assoc]
    · refine ⟨head.isRow.append (.gap_append gaps row), ?_⟩
      rw [head.isRow.tokens_append (by decide) gaps, tokens_token head.isToken, read, List.singleton_append]
    · simp

theorem tabsAfter_eq (width column : Nat) : tabsAfter width column = max 1 ((width + 7) / 8 - column / 8) := by
  fun_induction tabsAfter width column with
  | case1 column stop reached =>
    simp only [stop, tabStop] at reached
    omega
  | case2 column stop short ih =>
    rw [ih]
    simp only [stop, tabStop] at short ⊢
    omega

theorem tokens_columns (width : Nat) {written : List Phrase}
    (inked : ∀ phrase ∈ written, ∀ token ∈ phrase, IsInked token) :
    IsRow (columns width (written.map Phrase.text)).toList ∧
      tokens (columns width (written.map Phrase.text)).toList = written.flatten := by
  induction written with
  | nil => exact ⟨by simp [columns, IsRow], rfl⟩
  | cons phrase written ih =>
    obtain ⟨head, read⟩ := Phrase.tokens_text (inked phrase List.mem_cons_self)
    obtain ⟨rest, later⟩ := ih fun phrase member => inked phrase (List.mem_cons_of_mem _ member)
    cases written with
    | nil => simpa [columns] using ⟨head, read⟩
    | cons next written =>
      have gaps (count : Nat) : ∀ c ∈ List.replicate count '\t', isGap c = true := by simp [isGap]
      have reached (count : Nat) : List.replicate (tabsAfter width count) '\t' ≠ [] := by
        rw [tabsAfter_eq, ne_eq, List.replicate_eq_nil_iff]
        omega
      rw [List.map_cons, columns, String.toList_append, String.toList_append, String.toList_ofList, List.append_assoc]
      · refine ⟨head.append (.gap_append (gaps _) rest), ?_⟩
        rw [head.tokens_append (reached _) (gaps _), read, later, List.flatten_cons (l := phrase)]
      · simp

/-! ## Instructions -/

def Scope.Legible (scope : Scope) : Prop :=
  ∀ entry ∈ scope.labels.entries, IsName entry.1

def Scope.Named (scope : Scope) : Prop :=
  ∀ entry ∈ scope.labels.entries, IsIdentifier entry.1

theorem Scope.Named.legible {scope : Scope} (named : scope.Named) : scope.Legible :=
  fun entry member => (named entry member).isName

def Jump.listingOperand (scope : Scope) (command : Jump) : String :=
  (scope.labelsAt command.target.toNat).head?.getD (toString command.target.toNat)

def Mvi.listingOperand (scope : Scope) (command : Mvi) : String :=
  (command.target?.bind fun target => (scope.labelsAt target).head?).getD ("#" ++ toString command.immediate)

theorem Special.listingPhrase_eq (scope : Scope) (command : Special) :
    command.listingPhrase scope =
      match command with
      | jump command => command.phraseWith (command.listingOperand scope)
      | mvi command => command.phraseWith (command.listingOperand scope)
      | other => other.phrase := by
  cases command with
  | stop op | loop op | dma command => rfl
  | mvi command =>
    change (mvi command).listingPhrase scope = command.phraseWith (command.listingOperand scope)
    rw [listingPhrase, target?, Mvi.listingOperand]
    cases command.target?.bind fun target => (scope.labelsAt target).head? <;> rfl
  | jump command =>
    change (jump command).listingPhrase scope = command.phraseWith (command.listingOperand scope)
    rw [listingPhrase, target?, Option.bind_some, Jump.listingOperand]
    cases (scope.labelsAt command.target.toNat).head? <;> rfl

theorem Jump.isInked_listingOperand {scope : Scope} (legible : scope.Legible) (command : Jump) :
    IsInked (command.listingOperand scope) := by
  rw [listingOperand]
  cases found : (scope.labelsAt command.target.toNat).head? with
  | none => exact Numeral.isInked_toString _
  | some label => exact (legible _ (Scope.mem_labelsAt.mp (List.mem_of_head? found))).isInked

theorem Mvi.isInked_listingOperand {scope : Scope} (legible : scope.Legible) (command : Mvi) :
    IsInked (command.listingOperand scope) := by
  rw [listingOperand]
  cases found : command.target?.bind fun target => (scope.labelsAt target).head? with
  | none => exact Numeral.isInked_immediate _
  | some label =>
    obtain ⟨target, -, first⟩ := Option.bind_eq_some_iff.mp found
    exact (legible _ (Scope.mem_labelsAt.mp (List.mem_of_head? first))).isInked

theorem Special.inked_listingPhrase {scope : Scope} (legible : scope.Legible) (command : Special) :
    ∀ token ∈ command.listingPhrase scope, IsInked token := by
  rw [listingPhrase_eq]
  split
  · rename_i command
    exact command.inked_with (command.isInked_listingOperand legible)
  · rename_i command
    exact (command.printable_with (command.isInked_listingOperand legible)).inked
  · exact (Special.printable _).inked

theorem Special.listingPhrase_ne_nil (scope : Scope) (command : Special) : command.listingPhrase scope ≠ [] := by
  rw [listingPhrase_eq]
  split
  · rw [Jump.phraseWith]
    split <;> simp
  · rw [Mvi.phraseWith]
    split <;> simp
  · intro empty
    have grammatical := command.printable.wellFormed
    rw [empty] at grammatical
    exact grammatical

namespace Instruction

def rowTokens (scope : Scope) : Instruction → List String
  | compound slots => slots.phrases.flatten
  | special command => command.listingPhrase scope

theorem rowTokens_eq_cons {scope : Scope} (legible : scope.Legible) (instruction : Instruction) :
    ∃ first later, instruction.rowTokens scope = first :: later ∧ IsInked first := by
  cases instruction with
  | compound slots => exact ⟨_, _, rfl, isInked_name slots.alu⟩
  | special command =>
    obtain ⟨first, later, written⟩ := List.exists_cons_of_ne_nil (command.listingPhrase_ne_nil scope)
    exact ⟨first, later, written, command.inked_listingPhrase legible first (by simp [written])⟩

theorem tokens_row {scope : Scope} (legible : scope.Legible) (layout : Layout) (instruction : Instruction) :
    IsRow (instruction.row scope layout).toList ∧
      tokens (instruction.row scope layout).toList = instruction.rowTokens scope := by
  cases instruction with
  | compound slots => exact tokens_columns _ fun phrase member => (Slots.printable member).inked
  | special command => exact Phrase.tokens_text (command.inked_listingPhrase legible)

end Instruction

/-! ## Lines -/

theorem SourceLine.read_row {text : List Char} (row : IsRow text) {first : String} {later : List String}
    (read : tokens text = first :: later) (inked : IsInked first) :
    SourceLine.read text = .instruction (first :: later) := by
  have uncoloned : first.toList.getLast? ≠ some ':' := fun last =>
    inked.not_mem (by decide) (List.mem_of_getLast? last)
  have undefined : '=' ∉ stripComment text := by
    rw [stripComment_eq_self (row.not_mem (by decide) (by decide))]
    exact row.not_mem (by decide) (by decide)
  rw [SourceLine.read, read]
  simp only [if_neg uncoloned, if_neg undefined]

theorem SourceLine.read_declaration {name : String} (inked : IsInked name) :
    SourceLine.read (name ++ ":").toList = .label (name ++ ":") [] := by
  have colon : ":".toList = [':'] := rfl
  have valid : IsToken (name ++ ":") := by
    constructor
    · simp
    · intro c member
      rw [String.toList_append, colon, List.mem_append, List.mem_singleton] at member
      rcases member with member | rfl
      · exact isSeparator_of_isInk (inked.isInk_of_mem member)
      · decide
    · simpa using inked.not_mem (by decide)
    · rw [String.toList_append, upper, List.map_append, ← upper, inked.upper_eq]
      rfl
  have last : (name ++ ":").toList.getLast? = some ':' := by
    rw [String.toList_append, colon, List.getLast?_concat]
  rw [SourceLine.read, tokens_token valid]
  simp only [if_pos last]

end DspAsm
