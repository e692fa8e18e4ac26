import DspAsm.Fault
import DspAsm.Symbol.Table
import DspAsm.Text.Token

namespace DspAsm
open Text

structure Scope where
  labels : SymbolTable Nat := .empty
  constants : SymbolTable Int := .empty
  deriving DecidableEq

def dropColon (text : List Char) : List Char :=
  if text.getLast? = some ':' then text.dropLast else text

/-- The name that a label is known by: without the colon that declares it and without blanks around it. -/
def labelKey (name : String) : String :=
  String.ofList (trim (dropColon (trim name.toList)))

def constantKey (name : String) : String :=
  String.ofList (trim name.toList)

namespace Scope

/-- A change of the scope, which may fail. What has been changed by then stays changed. -/
abbrev Change (α : Type) := ExceptT Fault (StateM Scope) α

def Change.run {α : Type} (change : Change α) (scope : Scope) : Except Fault α × Scope :=
  StateT.run (ExceptT.run change) scope

def registerLabel (name : String) (index : Nat) : Change Unit := do
  let key := labelKey name
  if programCapacity ≤ index then
    throw (.labelOutOfRange key index)
  if ((← get).labels.find? key).isSome then
    throw (.duplicateSymbol key)
  modify fun scope => { scope with labels := scope.labels.insert key index }

def registerConstant (name : String) (value : Int) : Change Unit := do
  let key := constantKey name
  if key = "" then
    throw (.malformed "=" .namelessConstant)
  if ((← get).constants.find? key).isSome then
    throw (.duplicateSymbol key)
  modify fun scope => { scope with constants := scope.constants.insert key value }

def defineConstant (definition : String) : Change Unit :=
  let subject := constantKey definition
  match pieces (· == '=') definition.toList with
  | [name, numeral] =>
    match Numeral.read? (String.ofList numeral) with
    | some value => registerConstant (String.ofList name) value
    | none => throw (.malformed subject (.isNot (String.ofList (trim numeral)) .number))
  | _ => throw (.malformed subject .equalsSigns)

def after (scope : Scope) (change : Change Unit) : Except Fault Scope :=
  match change.run scope with
  | (.ok _, changed) => .ok changed
  | (.error fault, _) => .error fault

def addLabel (scope : Scope) (name : String) (index : Nat) : Except Fault Scope :=
  scope.after (registerLabel name index)

def addConstant (scope : Scope) (name : String) (value : Int) : Except Fault Scope :=
  scope.after (registerConstant name value)

def define (scope : Scope) (definition : String) : Except Fault Scope :=
  scope.after (defineConstant definition)

def label (scope : Scope) (name : String) : Except Fault Nat :=
  match scope.labels.find? (labelKey name) with
  | some index => .ok index
  | none => .error (.unknownSymbol (labelKey name))

def constant (scope : Scope) (name : String) : Except Fault Int :=
  match scope.constants.find? (constantKey name) with
  | some value => .ok value
  | none => .error (.unknownSymbol (constantKey name))

def dropHashes (token : String) : String :=
  String.ofList (token.toList.dropWhile (· == '#'))

/-- The value of an operand that may name a label. A numeral is never a name. -/
def labelValue (scope : Scope) (token : String) : Except Fault Int :=
  match Numeral.read? token with
  | some value => .ok value
  | none => (scope.label (dropHashes token)).map fun index => (index : Int)

def constantValue (scope : Scope) (token : String) : Except Fault Int :=
  match Numeral.read? token with
  | some value => .ok value
  | none => scope.constant (dropHashes token)

def labelsAt (scope : Scope) (index : Nat) : List String :=
  scope.labels.namesOf index

def hasLabelAt (scope : Scope) (index : Nat) : Bool :=
  scope.labels.entries.any fun entry => entry.2 = index

end Scope

end DspAsm
