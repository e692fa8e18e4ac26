import DspAsm.Instruction.Assembly
import DspAsm.Proofs.Symbol.Registration

/-!
Lines in a scope with more symbols.

Names of registers, counters and conditions come before numerals, and numerals before symbols, so a symbol is looked up
only where nothing else has that spelling. Main statement: a line that has a meaning keeps it when symbols are added,
and so does a line that is refused, unless it is refused for want of a symbol.
-/

namespace DspAsm
open CodeTable (ofName?)

/-! ## Outcomes -/

/-- What a computation gives once more symbols are known: the same as before, unless a symbol was missing. -/
inductive Outlasts {α : Type} : Except Fault α → Except Fault α → Prop
  | same (outcome : Except Fault α) : Outlasts outcome outcome
  | missing (name : String) (outcome : Except Fault α) : Outlasts (.error (.unknownSymbol name)) outcome

namespace Outlasts

variable {α β : Type} {before after : Except Fault α}

theorem eq_ok (outlasts : Outlasts before after) {value : α} (made : before = .ok value) : after = .ok value := by
  cases outlasts with
  | same => exact made
  | missing => cases made

theorem eq_error (outlasts : Outlasts before after) {fault : Fault} (failed : before = .error fault)
    (settled : ∀ name, fault ≠ .unknownSymbol name) : after = .error fault := by
  cases outlasts with
  | same => exact failed
  | missing name => exact absurd (Except.error.inj failed).symm (settled name)

theorem bind {next next' : α → Except Fault β} (first : Outlasts before after)
    (later : ∀ value, Outlasts (next value) (next' value)) : Outlasts (before >>= next) (after >>= next') := by
  cases first with
  | same =>
    cases before with
    | ok value => exact later value
    | error fault => exact .same (.error fault)
  | missing name => exact .missing name (after >>= next')

theorem map (change : α → β) (first : Outlasts before after) : Outlasts (before.map change) (after.map change) := by
  cases first with
  | same => exact .same _
  | missing name => exact .missing name (after.map change)

theorem choice {condition : Prop} [Decidable condition] {other other' : Except Fault α}
    (yes : Outlasts before after) (no : Outlasts other other') :
    Outlasts (if condition then before else other) (if condition then after else other') := by
  split
  · exact yes
  · exact no

theorem mapM {step step' : α → Except Fault β} (each : ∀ value, Outlasts (step value) (step' value)) (values : List α) :
    Outlasts (values.mapM step) (values.mapM step') := by
  induction values with
  | nil => exact .same _
  | cons value values ih =>
    rw [List.mapM_cons, List.mapM_cons]
    apply (each value).bind
    intro result
    apply ih.bind
    intro results
    exact .same _

end Outlasts

/-! ## Symbols -/

namespace Scope

def Within (scope wider : Scope) : Prop :=
  ∀ symbol, scope.Binds symbol → wider.Binds symbol

namespace Within

variable {scope wider : Scope}

theorem label (within : scope.Within wider) (name : String) : Outlasts (scope.label name) (wider.label name) := by
  unfold Scope.label
  cases found : scope.labels.find? (labelKey name) with
  | none => exact .missing _ _
  | some index =>
    have kept : wider.labels.find? (labelKey name) = some index := within (.label (labelKey name) index) found
    rw [kept]
    exact .same _

theorem constant (within : scope.Within wider) (name : String) :
    Outlasts (scope.constant name) (wider.constant name) := by
  unfold Scope.constant
  cases found : scope.constants.find? (constantKey name) with
  | none => exact .missing _ _
  | some value =>
    have kept : wider.constants.find? (constantKey name) = some value :=
      within (.constant (constantKey name) value) found
    rw [kept]
    exact .same _

theorem labelValue (within : scope.Within wider) (token : String) :
    Outlasts (scope.labelValue token) (wider.labelValue token) := by
  unfold Scope.labelValue
  cases Numeral.read? token with
  | some value => exact .same _
  | none =>
    apply Outlasts.map
    apply (within.label (dropHashes token)).bind
    intro index
    exact .same _

theorem constantValue (within : scope.Within wider) (token : String) :
    Outlasts (scope.constantValue token) (wider.constantValue token) := by
  unfold Scope.constantValue
  cases Numeral.read? token with
  | some value => exact .same _
  | none => exact within.constant (dropHashes token)

/-! ## Commands -/

theorem parseSource (within : scope.Within wider) (source : String) (destination : D1Destination) :
    Outlasts (D1Bus.parseSource scope source destination) (D1Bus.parseSource wider source destination) := by
  unfold D1Bus.parseSource
  cases (ofName? source : Option D1Source) with
  | some register => exact .same _
  | none =>
    apply Outlasts.choice (.same _)
    apply (within.constantValue source).bind
    intro value
    exact .same _

theorem parseD1Bus (within : scope.Within wider) (phrase : Phrase) :
    Outlasts (D1Bus.parse scope phrase) (D1Bus.parse wider phrase) := by
  fun_cases D1Bus.parse scope phrase with
  | case1 => exact .same _
  | case2 source destination =>
    rw [D1Bus.parse]
    apply (Outlasts.same _).bind
    intro destination
    exact within.parseSource source destination
  | case3 phrase idle move =>
    rw [D1Bus.parse.eq_3 wider phrase idle move]
    exact .same _

theorem parseCount (within : scope.Within wider) (mnemonic count : String) :
    Outlasts (Dma.parseCount scope mnemonic count) (Dma.parseCount wider mnemonic count) := by
  unfold Dma.parseCount
  cases (ofName? count : Option DmaCounter) with
  | some counter => exact .same _
  | none =>
    apply (within.constantValue count).bind
    intro value
    exact .same _

theorem parseDma (within : scope.Within wider) (phrase : Phrase) :
    Outlasts (Dma.parse scope phrase) (Dma.parse wider phrase) := by
  fun_cases Dma.parse scope phrase with
  | case1 mnemonic origin goal length =>
    rw [Dma.parse]
    apply (Outlasts.same _).bind
    intro hold
    apply (Outlasts.same _).bind
    rintro ⟨direction, inner⟩
    apply (Outlasts.same _).bind
    intro pointer
    apply Outlasts.choice (.same _)
    apply (within.parseCount mnemonic length).bind
    intro count
    exact .same _
  | case2 phrase other =>
    rw [Dma.parse.eq_2 wider phrase other]
    exact .same _

theorem parseLoad (within : scope.Within wider) (value destination : String) (condition : Option String) :
    Outlasts (Mvi.parseOperands scope value destination condition)
      (Mvi.parseOperands wider value destination condition) := by
  unfold Mvi.parseOperands
  apply (Outlasts.same _).bind
  intro destination
  apply (Outlasts.same _).bind
  intro condition
  apply Outlasts.choice
  · apply (within.labelValue value).bind
    intro value
    exact .same _
  · apply (within.constantValue value).bind
    intro value
    exact .same _

theorem parseMvi (within : scope.Within wider) (phrase : Phrase) :
    Outlasts (Mvi.parse scope phrase) (Mvi.parse wider phrase) := by
  fun_cases Mvi.parse scope phrase with
  | case1 value destination => exact within.parseLoad value destination none
  | case2 value destination condition => exact within.parseLoad value destination (some condition)
  | case3 phrase plain conditional wrong =>
    rw [Mvi.parse.eq_3 wider phrase plain conditional, if_pos wrong]
    exact .same _
  | case4 phrase plain conditional right =>
    rw [Mvi.parse.eq_3 wider phrase plain conditional, if_neg right]
    exact .same _

theorem parseTarget (within : scope.Within wider) (condition : Option String) (target : String) :
    Outlasts (Jump.parseOperands scope condition target) (Jump.parseOperands wider condition target) := by
  unfold Jump.parseOperands
  apply (Outlasts.same _).bind
  intro condition
  apply (within.labelValue target).bind
  intro value
  exact .same _

theorem parseJump (within : scope.Within wider) (phrase : Phrase) :
    Outlasts (Jump.parse scope phrase) (Jump.parse wider phrase) := by
  fun_cases Jump.parse scope phrase with
  | case1 target => exact within.parseTarget none target
  | case2 condition target => exact within.parseTarget (some condition) target
  | case3 phrase plain conditional wrong =>
    rw [Jump.parse.eq_3 wider phrase plain conditional, if_pos wrong]
    exact .same _
  | case4 phrase plain conditional right =>
    rw [Jump.parse.eq_3 wider phrase plain conditional, if_neg right]
    exact .same _

theorem parseCommand (within : scope.Within wider) (phrase : Phrase) :
    Outlasts (Command.parse scope phrase) (Command.parse wider phrase) := by
  cases phrase with
  | nil => exact .same _
  | cons token operands =>
    rw [Command.parse, Command.parse]
    apply (Outlasts.same _).bind
    intro mnemonic
    -- Only transfers, loads, jumps and moves on the D1 bus look at the scope.
    cases mnemonic.family with
    | nop | alu | clr | stop | loop => exact .same _
    | mov =>
      dsimp only
      split
      case h_5 => exact (within.parseD1Bus _).bind fun _ => .same _
      all_goals exact .same _
    | dma => exact (within.parseDma _).bind fun _ => .same _
    | mvi => exact (within.parseMvi _).bind fun _ => .same _
    | jump => exact (within.parseJump _).bind fun _ => .same _

end Within

end Scope

/-! ## Instructions -/

namespace Instruction

theorem ofTokens_outlasts {scope wider : Scope} (within : scope.Within wider) (tokens : List String) :
    Outlasts (ofTokens scope tokens) (ofTokens wider tokens) := by
  unfold ofTokens
  apply (Outlasts.same _).bind
  intro written
  apply (Outlasts.mapM within.parseCommand written).bind
  intro commands
  exact .same _

/-- Symbols that are added change no instruction and no fault, except the fault that a symbol is unknown. -/
theorem ofTokens_within {scope wider : Scope} (within : scope.Within wider) (tokens : List String) :
    (∀ instruction, ofTokens scope tokens = .ok instruction → ofTokens wider tokens = .ok instruction) ∧
      ∀ fault, (∀ name, fault ≠ .unknownSymbol name) → ofTokens scope tokens = .error fault →
        ofTokens wider tokens = .error fault := by
  have outlasts := ofTokens_outlasts within tokens
  exact ⟨fun instruction made => outlasts.eq_ok made, fun fault settled failed => outlasts.eq_error failed settled⟩

theorem ofTokens_within_reserved_names :
    ∃ scope wider : Scope, scope.Within wider ∧ wider.Binds (.constant "X" 9) ∧ wider.Binds (.label "NZ" 1) ∧
      ofTokens wider ["MVI", "SIZE", "MC0", "NZ"] = .ok (.special (.mvi ⟨.mc0, 3, some .nz⟩)) ∧
      ofTokens wider ["MOV", "X", "MC0"] = .error (.malformed "MOV" (.isNot "X" .d1Source)) := by
  let scope : Scope := { constants := SymbolTable.empty.insert "SIZE" 3 }
  have within : scope.Within (scope.registerAll [.definition "X=9", .label "NZ:" 1]) :=
    fun symbol binds => binds.registerAll _
  have made : ofTokens scope ["MVI", "SIZE", "MC0", "NZ"] = .ok (.special (.mvi ⟨.mc0, 3, some .nz⟩)) := by rfl
  have failed : ofTokens scope ["MOV", "X", "MC0"] = .error (.malformed "MOV" (.isNot "X" .d1Source)) := by rfl
  refine ⟨scope, _, within, by rfl, by rfl, ?_, ?_⟩
  · exact (ofTokens_within within _).1 _ made
  · exact (ofTokens_within within _).2 _ (by simp) failed

end Instruction

end DspAsm
