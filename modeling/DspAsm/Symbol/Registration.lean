import DspAsm.Symbol.Scope

namespace DspAsm

inductive Registration where
  | label (name : String) (index : Nat)
  | constant (name : String) (value : Int)
  | definition (text : String)
  deriving DecidableEq

def Registration.change : Registration → Scope.Change Unit
  | label name index => Scope.registerLabel name index
  | constant name value => Scope.registerConstant name value
  | definition text => Scope.defineConstant text

namespace Scope

def perform (scope : Scope) (call : Registration) : Except Fault Unit × Scope :=
  call.change.run scope

def register (scope : Scope) (call : Registration) : Scope :=
  (scope.perform call).2

def registerAll (scope : Scope) (calls : List Registration) : Scope :=
  calls.foldl register scope

end Scope

end DspAsm
