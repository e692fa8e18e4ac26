import DspAsm.Command.Parse
import DspAsm.Proofs.Code.Lookup
import DspAsm.Proofs.Command.Legal
import DspAsm.Proofs.Text.Numeral

namespace DspAsm
open CodeTable (name)

/-! ## Operands -/

theorem operand_eq_ok {α : Type} [CodeTable α] [LawfulCodeTable α] {mnemonic text : String} {role : Role} {value : α} :
    operand mnemonic role text = .ok value ↔ name value = text := by
  rw [← CodeTable.ofName?_eq_some]
  cases found : (CodeTable.ofName? text : Option α) <;> simp [operand, found]

theorem bounded_eq_ok {mnemonic : String} {least most value result : Int} :
    bounded mnemonic least most value = .ok result ↔ (least ≤ value ∧ value ≤ most) ∧ value = result := by
  by_cases outside : value < least ∨ most < value
  · simp only [bounded, if_pos outside, reduceCtorEq, false_iff]
    omega
  · simp only [bounded, if_neg outside, Except.ok.injEq]
    omega

theorem parseCondition_eq_ok {mnemonic : String} {text : Option String} {condition : Option Condition} :
    parseCondition mnemonic text = .ok condition ↔ text = condition.map name := by
  cases text with
  | none => cases condition <;> simp [parseCondition]
  | some text =>
    rw [parseCondition, map_eq_ok]
    constructor
    · rintro ⟨value, read, rfl⟩
      rw [← operand_eq_ok.mp read, Option.map_some]
    · cases condition with
      | none => simp
      | some value =>
        intro same
        exact ⟨value, operand_eq_ok.mpr (Option.some.inj same).symm, rfl⟩

theorem toNat_ofNat_toNat {value : Int} (fits : 0 ≤ value ∧ value ≤ 255) :
    ((UInt8.ofNat value.toNat).toNat : Int) = value := by
  rw [UInt8.toNat_ofNat']
  omega

/-! ## Jumps -/

namespace Jump

theorem parseOperands_eq_ok {scope : Scope} {condition : Option String} {target : String} {command : Jump} :
    parseOperands scope condition target = .ok command ↔
      condition = command.condition.map name ∧ scope.labelValue target = .ok (command.target.toNat : Int) ∧
        command.Legal := by
  simp only [parseOperands, bind_eq_ok, parseCondition_eq_ok, bounded_eq_ok, pure_eq_ok]
  constructor
  · rintro ⟨condition', conditional, value, found, target', ⟨fits, rfl⟩, rfl⟩
    have kept : ((UInt8.ofNat value.toNat).toNat : Int) = value := toNat_ofNat_toNat (by omega)
    refine ⟨conditional, by rw [found, kept], ?_⟩
    rw [Legal, UInt8.le_iff_toNat_le]
    change (UInt8.ofNat value.toNat).toNat ≤ 127
    omega
  · rintro ⟨conditional, found, legal⟩
    rw [Legal, UInt8.le_iff_toNat_le] at legal
    change _ ≤ 127 at legal
    exact ⟨_, conditional, _, found, _, ⟨by omega, rfl⟩, by simp⟩

theorem parse_eq_ok {scope : Scope} {tokens : List String} {command : Jump} :
    parse scope tokens = .ok command ↔ command.Legal ∧ ∃ target,
      tokens = command.phraseWith target ∧ scope.labelValue target = .ok (command.target.toNat : Int) := by
  constructor
  · intro parsed
    unfold parse at parsed
    split at parsed
    case h_1 target =>
      obtain ⟨conditional, found, legal⟩ := parseOperands_eq_ok.mp parsed
      have held := Option.map_eq_none_iff.mp conditional.symm
      exact ⟨legal, target, by rw [phraseWith, held], found⟩
    case h_2 condition target =>
      obtain ⟨conditional, found, legal⟩ := parseOperands_eq_ok.mp parsed
      obtain ⟨condition, held, rfl⟩ := Option.map_eq_some_iff.mp conditional.symm
      exact ⟨legal, target, by rw [phraseWith, held], found⟩
    case h_3 => split at parsed <;> cases parsed
  · rintro ⟨legal, target, rfl, found⟩
    cases held : command.condition with
    | none =>
      rw [phraseWith, held, parse]
      exact parseOperands_eq_ok.mpr ⟨by rw [held]; rfl, found, legal⟩
    | some condition =>
      rw [phraseWith, held, parse]
      exact parseOperands_eq_ok.mpr ⟨by rw [held]; rfl, found, legal⟩

end Jump

/-! ## Loads -/

namespace Mvi

theorem parseOperands_eq_ok {scope : Scope} {value destination : String} {condition : Option String} {command : Mvi} :
    parseOperands scope value destination condition = .ok command ↔
      destination = name command.destination ∧ condition = command.condition.map name ∧
        (if command.destination = .pc then scope.labelValue value else scope.constantValue value) =
          .ok command.immediate ∧ command.Legal := by
  simp only [parseOperands, bind_eq_ok, parseCondition_eq_ok, operand_eq_ok, choice_bind_eq_ok, bounded_eq_ok,
    pure_eq_ok]
  constructor
  · rintro ⟨destination', named, condition', conditional, value', found, immediate, ⟨fits, rfl⟩, rfl⟩
    refine ⟨named.symm, conditional, found, ?_⟩
    cases condition' <;> simp [Legal] at fits ⊢ <;> omega
  · rintro ⟨named, conditional, found, legal⟩
    refine ⟨_, named.symm, _, conditional, _, found, _, ⟨?_, rfl⟩, rfl⟩
    cases held : command.condition <;> simp [Legal, held] at legal ⊢ <;> omega

theorem parse_eq_ok {scope : Scope} {tokens : List String} {command : Mvi} :
    parse scope tokens = .ok command ↔ command.Legal ∧ ∃ value,
      tokens = command.phraseWith value ∧
        (if command.destination = .pc then scope.labelValue value else scope.constantValue value) =
          .ok command.immediate := by
  constructor
  · intro parsed
    unfold parse at parsed
    split at parsed
    case h_1 value destination =>
      obtain ⟨rfl, conditional, found, legal⟩ := parseOperands_eq_ok.mp parsed
      have held := Option.map_eq_none_iff.mp conditional.symm
      exact ⟨legal, value, by rw [phraseWith, held], found⟩
    case h_2 value destination condition =>
      obtain ⟨rfl, conditional, found, legal⟩ := parseOperands_eq_ok.mp parsed
      obtain ⟨condition, held, rfl⟩ := Option.map_eq_some_iff.mp conditional.symm
      exact ⟨legal, value, by rw [phraseWith, held], found⟩
    case h_3 => split at parsed <;> cases parsed
  · rintro ⟨legal, value, rfl, found⟩
    cases held : command.condition with
    | none =>
      rw [phraseWith, held, parse]
      exact parseOperands_eq_ok.mpr ⟨rfl, by rw [held]; rfl, found, legal⟩
    | some condition =>
      rw [phraseWith, held, parse]
      exact parseOperands_eq_ok.mpr ⟨rfl, by rw [held]; rfl, found, legal⟩

end Mvi

/-! ## Transfers -/

namespace Dma

theorem parseHold_eq_ok {mnemonic : String} {hold : Bool} :
    parseHold mnemonic = .ok hold ↔ mnemonic = if hold then "DMAH" else "DMA" := by
  unfold parseHold
  split <;> cases hold <;> simp_all

theorem parseEnds_eq_ok {mnemonic origin goal inner : String} {direction : DmaDirection} :
    parseEnds mnemonic origin goal = .ok (direction, inner) ↔
      match direction with
      | .d0ToRam => origin = "D0" ∧ goal = inner
      | .ramToD0 => origin ≠ "D0" ∧ goal = "D0" ∧ origin = inner := by
  unfold parseEnds
  split
  · cases direction <;> simp_all
  · split <;> cases direction <;> simp_all

theorem name_pointer_ne (pointer : DmaPointer) : name pointer ≠ "D0" := by
  cases pointer <;> decide

theorem parse_eq_ok {scope : Scope} {tokens : List String} {command : Dma} :
    parse scope tokens = .ok command ↔ command.Legal ∧ ∃ length,
      tokens = command.phrase.take 3 ++ [length] ∧
        parseCount scope command.mnemonic length = .ok command.count := by
  constructor
  · intro parsed
    unfold parse at parsed
    split at parsed
    case h_2 => cases parsed
    simp only [bind_eq_ok, check_eq_ok, parseHold_eq_ok, operand_eq_ok, pure_eq_ok, Prod.exists,
      parseEnds_eq_ok] at parsed
    obtain ⟨hold, rfl, direction, inner, ends, pointer, rfl, inward, count, counted, rfl⟩ := parsed
    refine ⟨⟨rfl, inward⟩, _, ?_, counted⟩
    cases direction <;> simp_all [phrase, Dma.mnemonic]
  · rintro ⟨⟨plain, inward⟩, length, rfl, counted⟩
    have held : parseHold command.mnemonic = .ok command.hold := parseHold_eq_ok.mpr rfl
    have ends : ∃ origin goal, command.phrase.take 3 = [command.mnemonic, origin, goal] ∧
        parseEnds command.mnemonic origin goal = .ok (command.direction, name command.pointer) := by
      cases toward : command.direction with
      | d0ToRam => exact ⟨"D0", name command.pointer, by simp [phrase, toward], parseEnds_eq_ok.mpr ⟨rfl, rfl⟩⟩
      | ramToD0 =>
        exact ⟨name command.pointer, "D0", by simp [phrase, toward],
          parseEnds_eq_ok.mpr ⟨name_pointer_ne _, rfl, rfl⟩⟩
    obtain ⟨origin, goal, written, ends⟩ := ends
    rw [written]
    change parse scope [command.mnemonic, origin, goal, length] = _
    simp only [parse, bind_eq_ok, check_eq_ok, pure_eq_ok]
    refine ⟨_, held, _, ends, _, operand_eq_ok.mpr rfl, inward, _, counted, ?_⟩
    rw [plainAddMode, ← plain]

end Dma

end DspAsm
