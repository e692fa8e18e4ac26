import DspAsm.Proofs.Symbol.Scope
import DspAsm.Symbol.Registration

namespace DspAsm
open Text

/-! ## Symbols -/

inductive Symbol where
  | label (name : String) (index : Nat)
  | constant (name : String) (value : Int)
  deriving DecidableEq

def Symbol.Valid : Symbol → Prop
  | label _ index => index < programCapacity
  | constant name _ => name ≠ ""

inductive Registration.Asks : Registration → Symbol → Prop
  | label {name spelling : String} {index : Nat} (spelled : SpellsLabel name spelling)
      (inside : index < programCapacity) : Asks (.label spelling index) (.label name index)
  | constant {name spelling : String} {value : Int} (spelled : SpellsConstant name spelling) (named : name ≠ "") :
      Asks (.constant spelling value) (.constant name value)
  | definition {name text : String} {left right : List Char} {value : Int}
      (written : text.toList = left ++ '=' :: right) (plain : '=' ∉ left) (plain' : '=' ∉ right)
      (spelled : SpellsConstant name (String.ofList left)) (named : name ≠ "")
      (read : Numeral.read? (String.ofList right) = some value) : Asks (.definition text) (.constant name value)

namespace Registration

variable {spelling text : String} {index : Nat} {value : Int} {call : Registration} {symbol other : Symbol}

theorem asks_label :
    Asks (.label spelling index) symbol ↔ index < programCapacity ∧ symbol = .label (labelKey spelling) index := by
  constructor
  · intro asks
    cases asks with
    | label spelled inside => exact ⟨inside, by rw [labelKey_eq_iff.mpr spelled]⟩
  · rintro ⟨inside, rfl⟩
    exact .label (labelKey_eq_iff.mp rfl) inside

theorem asks_constant :
    Asks (.constant spelling value) symbol ↔
      constantKey spelling ≠ "" ∧ symbol = .constant (constantKey spelling) value := by
  constructor
  · intro asks
    cases asks with
    | constant spelled named =>
      rw [constantKey_eq_iff.mpr spelled]
      exact ⟨named, rfl⟩
  · rintro ⟨named, rfl⟩
    exact .constant (constantKey_eq_iff.mp rfl) named

theorem asks_definition :
    Asks (.definition text) symbol ↔
      ∃ name value, definition? text.toList = some (name, value) ∧ symbol = .constant name value := by
  simp only [definition?_eq_some, pieces_eq_pair]
  constructor
  · intro asks
    cases asks with
    | @definition name _ left right value written plain plain' spelled named read =>
      rw [← constantKey_eq_iff, constantKey_ofList] at spelled
      subst spelled
      exact ⟨_, value, ⟨left, right, ⟨written, plain, plain'⟩, by simpa using named, rfl, read⟩, rfl⟩
  · rintro ⟨_, value, ⟨left, right, ⟨written, plain, plain'⟩, named, rfl, read⟩, rfl⟩
    exact .definition written plain plain' (constantKey_eq_iff.mp (constantKey_ofList left)) (by simpa using named) read

theorem Asks.valid (asks : call.Asks symbol) : symbol.Valid := by
  cases asks with
  | label _ inside => exact inside
  | constant _ named => exact named
  | definition _ _ _ _ named => exact named

theorem Asks.unique (asks : call.Asks symbol) (asks' : call.Asks other) : symbol = other := by
  cases call with
  | label => rw [(asks_label.mp asks).2, (asks_label.mp asks').2]
  | constant => rw [(asks_constant.mp asks).2, (asks_constant.mp asks').2]
  | definition =>
    obtain ⟨name, value, given, rfl⟩ := asks_definition.mp asks
    obtain ⟨name', value', given', rfl⟩ := asks_definition.mp asks'
    cases given.symm.trans given'
    rfl

end Registration

namespace Scope

variable {scope : Scope} {symbol : Symbol}

def Binds (scope : Scope) : Symbol → Prop
  | .label name index => scope.labels.find? name = some index
  | .constant name value => scope.constants.find? name = some value

def Free (scope : Scope) : Symbol → Prop
  | .label name _ => scope.labels.find? name = none
  | .constant name _ => scope.constants.find? name = none

def Resolves (scope : Scope) : Symbol → Prop
  | .label name index => ∀ spelling, SpellsLabel name spelling → scope.label spelling = .ok index
  | .constant name value => ∀ spelling, SpellsConstant name spelling → scope.constant spelling = .ok value

def bind (scope : Scope) : Symbol → Scope
  | .label name index => { scope with labels := scope.labels.insert name index }
  | .constant name value => { scope with constants := scope.constants.insert name value }

theorem binds_bind (free : scope.Free symbol) {other : Symbol} :
    (scope.bind symbol).Binds other ↔ scope.Binds other ∨ other = symbol := by
  cases symbol <;> cases other <;> simp [Binds, bind, SymbolTable.find?_insert_of_free free]

theorem Binds.resolves (binds : scope.Binds symbol) : scope.Resolves symbol := by
  cases symbol with
  | label name index =>
    intro spelling spelled
    rw [label, labelKey_eq_iff.mpr spelled, binds]
  | constant name value =>
    intro spelling spelled
    rw [constant, constantKey_eq_iff.mpr spelled, binds]

/-! ## One registration -/

theorem perform_eq_ok {call : Registration} {after : Scope} :
    scope.perform call = (.ok (), after) ↔
      ∃ symbol, call.Asks symbol ∧ scope.Free symbol ∧ scope.bind symbol = after := by
  rw [perform, ← after_eq_ok]
  cases call with
  | label name index =>
    rw [Registration.change, ← addLabel, addLabel_eq_ok, ← SymbolTable.find?_eq_none]
    simp only [Registration.asks_label]
    constructor
    · rintro ⟨inside, free, rfl⟩
      exact ⟨_, ⟨inside, rfl⟩, free, rfl⟩
    · rintro ⟨_, ⟨inside, rfl⟩, free, rfl⟩
      exact ⟨inside, free, rfl⟩
  | constant name value =>
    rw [Registration.change, ← addConstant, addConstant_eq_ok, ← SymbolTable.find?_eq_none]
    simp only [Registration.asks_constant]
    constructor
    · rintro ⟨named, free, rfl⟩
      exact ⟨_, ⟨named, rfl⟩, free, rfl⟩
    · rintro ⟨_, ⟨named, rfl⟩, free, rfl⟩
      exact ⟨named, free, rfl⟩
  | definition text =>
    rw [Registration.change, ← define, define_eq_ok]
    simp only [← SymbolTable.find?_eq_none, Registration.asks_definition]
    constructor
    · rintro ⟨name, value, given, free, rfl⟩
      exact ⟨_, ⟨name, value, given, rfl⟩, free, rfl⟩
    · rintro ⟨_, ⟨name, value, given, rfl⟩, free, rfl⟩
      exact ⟨name, value, given, free, rfl⟩

/-- A registration that is refused leaves the scope as it was. Every fault is thrown before the first change. -/
theorem perform_eq_error {call : Registration} {fault : Fault} {after : Scope}
    (refused : scope.perform call = (.error fault, after)) : after = scope := by
  have constant (name : String) (value : Int)
      (refused : (registerConstant name value).run scope = (.error fault, after)) : after = scope := by
    rw [run_registerConstant] at refused
    split_ifs at refused <;> cases refused <;> rfl
  rw [perform] at refused
  cases call with
  | label name index =>
    rw [Registration.change, run_registerLabel] at refused
    split_ifs at refused <;> cases refused <;> rfl
  | constant name value => exact constant name value refused
  | definition text =>
    rw [Registration.change] at refused
    by_cases single : ∃ left right, Text.pieces (· == '=') text.toList = [left, right]
    · obtain ⟨left, right, cut⟩ := single
      cases read : Numeral.read? (String.ofList right) with
      | none =>
        rw [defineConstant_of_unread cut read] at refused
        cases refused
        rfl
      | some value =>
        rw [defineConstant_of_read cut read] at refused
        exact constant _ _ refused
    · rw [defineConstant_of_ne_pair (by simpa using single)] at refused
      cases refused
      rfl

/-- A registration binds a symbol whose name was free, or it does nothing. -/
theorem register_cases (scope : Scope) (call : Registration) :
    scope.register call = scope ∨
      ∃ symbol, symbol.Valid ∧ scope.Free symbol ∧ scope.register call = scope.bind symbol := by
  rw [register]
  rcases performed : scope.perform call with ⟨fault | _, after⟩
  · exact .inl (perform_eq_error performed)
  · obtain ⟨symbol, asks, free, bound⟩ := perform_eq_ok.mp performed
    exact .inr ⟨symbol, asks.valid, free, bound.symm⟩

/-! ## Any number of registrations -/

theorem registerAll_keeps (invariant : Scope → Prop)
    (keeps : ∀ scope symbol, invariant scope → symbol.Valid → scope.Free symbol → invariant (scope.bind symbol))
    (start : invariant scope) (calls : List Registration) : invariant (scope.registerAll calls) := by
  induction calls generalizing scope with
  | nil => exact start
  | cons call calls ih =>
    -- The invariant carries over the first registration, and from there the others go on.
    apply ih
    rcases scope.register_cases call with same | ⟨symbol, valid, free, bound⟩
    · rwa [same]
    · rw [bound]
      exact keeps scope symbol start valid free

theorem Binds.registerAll (binds : scope.Binds symbol) (calls : List Registration) :
    (scope.registerAll calls).Binds symbol := by
  refine registerAll_keeps (fun scope => scope.Binds symbol) ?_ binds calls
  intro scope other binds _ free
  exact (binds_bind free).mpr (.inl binds)

theorem valid_of_registerAll {calls : List Registration} (binds : (registerAll {} calls).Binds symbol) :
    symbol.Valid := by
  have start : ∀ symbol, Binds {} symbol → symbol.Valid := by
    intro symbol binds
    cases symbol <;> cases binds
  refine registerAll_keeps (fun scope => ∀ symbol, scope.Binds symbol → symbol.Valid) ?_ start calls symbol binds
  intro scope bound all valid free other binds
  rcases (binds_bind free).mp binds with binds | rfl
  · exact all other binds
  · exact valid

/-- What can be relied on in a scope: one more registration does what it is asked for or nothing, what it binds stays
bound, and the labels of an index are listed in order. -/
structure Reliable (scope : Scope) : Prop where
  refused : ∀ call fault after, scope.perform call = (.error fault, after) → after = scope
  taken_iff : ∀ call, (∃ after, scope.perform call = (.ok (), after)) ↔ ∃ symbol, call.Asks symbol ∧ scope.Free symbol
  taken : ∀ call after, scope.perform call = (.ok (), after) →
    ∃ symbol, call.Asks symbol ∧ scope.Free symbol ∧ ∀ other, after.Binds other ↔ scope.Binds other ∨ other = symbol
  valid : ∀ symbol, scope.Binds symbol → symbol.Valid
  kept : ∀ call symbol after, scope.perform call = (.ok (), after) → call.Asks symbol →
    ∀ later, (after.registerAll later).Resolves symbol
  labelsAt_sorted : ∀ index, (scope.labelsAt index).Pairwise (· < ·)
  mem_labelsAt : ∀ index name, name ∈ scope.labelsAt index ↔ scope.Binds (.label name index)
  hasLabelAt_iff : ∀ index, scope.hasLabelAt index = true ↔ scope.labelsAt index ≠ []

theorem registerAll_reliable (history : List Registration) : (registerAll {} history).Reliable where
  refused _ _ _ := perform_eq_error
  taken_iff call := by
    simp only [perform_eq_ok]
    constructor
    · rintro ⟨after, symbol, asks, free, -⟩
      exact ⟨symbol, asks, free⟩
    · rintro ⟨symbol, asks, free⟩
      exact ⟨_, symbol, asks, free, rfl⟩
  taken call after performed := by
    obtain ⟨symbol, asks, free, rfl⟩ := perform_eq_ok.mp performed
    exact ⟨symbol, asks, free, fun other => binds_bind free⟩
  valid _ := valid_of_registerAll
  kept call symbol after performed asks later := by
    obtain ⟨bound, asks', free, rfl⟩ := perform_eq_ok.mp performed
    cases asks.unique asks'
    -- It is bound right after the call, stays bound, and what is bound resolves.
    exact (((binds_bind free).mpr (.inr rfl)).registerAll later).resolves
  labelsAt_sorted := labelsAt_sorted _
  mem_labelsAt index name := by rw [mem_labelsAt, Binds, SymbolTable.find?_eq_some]
  hasLabelAt_iff index := by simp [hasLabelAt_iff, ← mem_labelsAt, List.eq_nil_iff_forall_not_mem]

end Scope

end DspAsm
