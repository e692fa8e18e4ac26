import DspAsm.Instruction.Assembly
import DspAsm.Proofs.Outcome

namespace DspAsm

/-! ## Outcomes -/

def Lineless {α : Type} (result : Except Fault α) : Prop :=
  ∀ fault, result = .error fault → fault.line? = none

namespace Lineless

variable {α β σ : Type}

theorem ok (value : α) : Lineless (.ok value) :=
  nofun

theorem error {fault : Fault} (bare : fault.line? = none) : Lineless (.error fault : Except Fault α) := by
  rintro _ ⟨⟩
  exact bare

theorem bind {first : Except Fault α} {next : α → Except Fault β} (lineless : Lineless first)
    (later : ∀ value, Lineless (next value)) : Lineless (first >>= next) := by
  intro fault failed
  rcases bind_eq_error.mp failed with failed | ⟨value, -, failed⟩
  · exact lineless fault failed
  · exact later value fault failed

theorem map {first : Except Fault α} (change : α → β) (lineless : Lineless first) : Lineless (first.map change) := by
  cases first with
  | ok value => exact ok (change value)
  | error fault => exact error (lineless fault rfl)

theorem choice {condition : Prop} [Decidable condition] {yes no : Except Fault α} (first : Lineless yes)
    (second : Lineless no) : Lineless (if condition then yes else no) := by
  split
  · exact first
  · exact second

theorem mapM {step : α → Except Fault β} (each : ∀ value, Lineless (step value)) (values : List α) :
    Lineless (values.mapM step) := by
  intro fault failed
  obtain ⟨before, value, after, -, -, failed⟩ := mapM_eq_error.mp failed
  exact each value fault failed

theorem foldlM {step : σ → α → Except Fault σ} (each : ∀ state input, Lineless (step state input)) (inputs : List α)
    (start : σ) : Lineless (inputs.foldlM step start) := by
  intro fault failed
  obtain ⟨before, input, after, -, state, -, failed⟩ := foldlM_eq_error.mp failed
  exact each state input fault failed

end Lineless

open Lineless

/-! ## Phrases -/

theorem lineless_read (token : String) : Lineless (Mnemonic.read token) := by
  rw [Mnemonic.read]
  split
  · exact ok _
  · exact error rfl

theorem lineless_phrasesFrom (phrase : OpenPhrase) (tokens : List String) : Lineless (phrase.phrasesFrom tokens) := by
  induction tokens generalizing phrase with
  | nil =>
    rw [OpenPhrase.phrasesFrom]
    exact choice (error rfl) (ok _)
  | cons token tokens ih =>
    rw [OpenPhrase.phrasesFrom]
    apply choice (ih (phrase.add token))
    apply (lineless_read token).bind
    intro mnemonic
    apply (ih ⟨mnemonic, []⟩).bind
    intro later
    exact ok _

theorem lineless_phrases (tokens : List String) : Lineless (phrases tokens) := by
  cases tokens with
  | nil => exact ok _
  | cons token tokens =>
    apply (lineless_read token).bind
    intro mnemonic
    exact lineless_phrasesFrom ⟨mnemonic, []⟩ tokens

/-! ## Operands -/

theorem lineless_operand {α : Type} [CodeTable α] (mnemonic : String) (role : Role) (text : String) :
    Lineless (operand mnemonic role text : Except Fault α) := by
  rw [operand]
  split
  · exact ok _
  · exact error rfl

theorem lineless_bounded (mnemonic : String) (least most value : Int) :
    Lineless (bounded mnemonic least most value) := by
  rw [bounded]
  exact choice (error rfl) (ok _)

theorem lineless_constantValue (scope : Scope) (token : String) : Lineless (scope.constantValue token) := by
  rw [Scope.constantValue]
  split
  · exact ok _
  · rw [Scope.constant]
    split
    · exact ok _
    · exact error rfl

theorem lineless_labelValue (scope : Scope) (token : String) : Lineless (scope.labelValue token) := by
  rw [Scope.labelValue]
  split
  · exact ok _
  · apply Lineless.map
    rw [Scope.label]
    split
    · exact ok _
    · exact error rfl

theorem lineless_parseCondition (mnemonic : String) (text : Option String) :
    Lineless (parseCondition mnemonic text) := by
  cases text with
  | none => exact ok _
  | some text => exact (lineless_operand mnemonic .condition text).map some

/-! ## Commands -/

theorem line?_notForSlot (slot : Slot) (role : Role) (phrase : Phrase) :
    (notForSlot slot role phrase).line? = none := by
  cases phrase <;> rfl

theorem lineless_parseLone {Op : Type} [CodeTable Op] {role : Role} {stray : List String → Fault}
    (bare : ∀ tokens, (stray tokens).line? = none) (phrase : Phrase) :
    Lineless (parseLone role stray phrase : Except Fault Op) := by
  unfold parseLone
  split
  · split
    · exact ok _
    · exact error rfl
  · exact error (bare _)

theorem lineless_parseXBus (phrase : Phrase) : Lineless (XBus.parse phrase) := by
  unfold XBus.parse
  split
  · exact ok _
  · exact ok _
  · exact (lineless_operand _ _ _).map _
  · exact (lineless_operand _ _ _).map _
  · exact error (line?_notForSlot _ _ _)

theorem lineless_parseYBus (phrase : Phrase) : Lineless (YBus.parse phrase) := by
  unfold YBus.parse
  split
  · exact ok _
  · exact ok _
  · exact ok _
  · exact (lineless_operand _ _ _).map _
  · exact (lineless_operand _ _ _).map _
  · exact error (line?_notForSlot _ _ _)

theorem lineless_parseD1Bus (scope : Scope) (phrase : Phrase) : Lineless (D1Bus.parse scope phrase) := by
  unfold D1Bus.parse
  split
  · exact ok _
  · apply (lineless_operand _ _ _).bind
    intro destination
    rw [D1Bus.parseSource]
    split
    · exact ok _
    · apply choice (error rfl)
      apply (lineless_constantValue _ _).bind
      intro value
      exact (lineless_bounded _ _ _ _).bind fun _ => ok _
  · exact error (line?_notForSlot _ _ _)

theorem lineless_parseDma (scope : Scope) (phrase : Phrase) : Lineless (Dma.parse scope phrase) := by
  unfold Dma.parse
  split
  · rename_i mnemonic origin goal length
    have hold : Lineless (Dma.parseHold mnemonic) := by
      unfold Dma.parseHold
      split
      · exact ok _
      · exact ok _
      · exact error rfl
    have ends : Lineless (Dma.parseEnds mnemonic origin goal) := by
      rw [Dma.parseEnds]
      exact choice (ok _) (choice (ok _) (error rfl))
    have count : Lineless (Dma.parseCount scope mnemonic length) := by
      rw [Dma.parseCount]
      split
      · exact ok _
      · apply (lineless_constantValue _ _).bind
        intro value
        exact (lineless_bounded _ _ _ _).bind fun _ => ok _
    apply hold.bind
    intro hold
    apply ends.bind
    rintro ⟨direction, inner⟩
    apply (lineless_operand _ _ _).bind
    intro pointer
    apply choice ((error rfl).bind fun _ => count.bind fun _ => ok _)
    exact count.bind fun _ => ok _
  · exact error rfl

theorem lineless_parseMvi (scope : Scope) (phrase : Phrase) : Lineless (Mvi.parse scope phrase) := by
  have operands (value destination : String) (condition : Option String) :
      Lineless (Mvi.parseOperands scope value destination condition) := by
    unfold Mvi.parseOperands
    apply (lineless_operand _ _ _).bind
    intro destination
    apply (lineless_parseCondition _ _).bind
    intro condition
    apply choice
    · apply (lineless_labelValue _ _).bind
      intro value
      exact (lineless_bounded _ _ _ _).bind fun _ => ok _
    · apply (lineless_constantValue _ _).bind
      intro value
      exact (lineless_bounded _ _ _ _).bind fun _ => ok _
  unfold Mvi.parse
  split
  · exact operands _ _ _
  · exact operands _ _ _
  · exact choice (error rfl) (error rfl)

theorem lineless_parseJump (scope : Scope) (phrase : Phrase) : Lineless (Jump.parse scope phrase) := by
  have operands (condition : Option String) (target : String) :
      Lineless (Jump.parseOperands scope condition target) := by
    unfold Jump.parseOperands
    apply (lineless_parseCondition _ _).bind
    intro condition
    apply (lineless_labelValue _ _).bind
    intro value
    exact (lineless_bounded _ _ _ _).bind fun _ => ok _
  unfold Jump.parse
  split
  · exact operands _ _
  · exact operands _ _
  · exact choice (error rfl) (error rfl)

theorem lineless_parseCommand (scope : Scope) (phrase : Phrase) : Lineless (Command.parse scope phrase) := by
  cases phrase with
  | nil => exact ok _
  | cons token operands =>
    rw [Command.parse]
    apply (lineless_read token).bind
    intro mnemonic
    cases mnemonic.family with
    | nop => exact ok _
    | alu => exact (lineless_parseLone (fun _ => rfl) _).bind fun _ => ok _
    | clr => exact (lineless_parseYBus _).bind fun _ => ok _
    | mov =>
      dsimp only
      split
      · exact (lineless_parseXBus _).bind fun _ => ok _
      · exact (lineless_parseXBus _).bind fun _ => ok _
      · exact (lineless_parseYBus _).bind fun _ => ok _
      · exact (lineless_parseYBus _).bind fun _ => ok _
      · exact (lineless_parseD1Bus _ _).bind fun _ => ok _
    | dma => exact (lineless_parseDma _ _).bind fun _ => ok _
    | mvi => exact (lineless_parseMvi _ _).bind fun _ => ok _
    | jump => exact (lineless_parseJump _ _).bind fun _ => ok _
    | stop => exact (lineless_parseLone (fun _ => rfl) _).bind fun _ => ok _
    | loop => exact (lineless_parseLone (fun _ => rfl) _).bind fun _ => ok _

/-! ## Instructions -/

theorem lineless_refill {α : Type} (command : α → Command) (merge? : α → α → Option α) (held : Option α) (next : α) :
    Lineless (refill command merge? held next) := by
  unfold refill
  split
  · exact ok _
  · split
    · exact ok _
    · exact error rfl

theorem lineless_add (draft : Draft) (command : Command) : Lineless (draft.add command) := by
  cases draft with
  | special held => exact error rfl
  | slots taken =>
    cases command with
    | special next =>
      rw [Draft.add]
      split
      · exact ok _
      · exact error rfl
    | alu | xBus | yBus | d1Bus => exact (lineless_refill _ _ _ _).bind fun _ => ok _

/-- Reading an instruction tells what is wrong with its tokens, never where they stand. -/
theorem lineless_ofTokens (scope : Scope) (tokens : List String) : Lineless (Instruction.ofTokens scope tokens) := by
  apply (lineless_phrases tokens).bind
  intro written
  apply (Lineless.mapM (lineless_parseCommand scope) written).bind
  intro commands
  apply (Lineless.foldlM lineless_add _ _).bind
  intro draft
  exact ok _

end DspAsm
