namespace DspAsm

/-- The values of a field, each with its bit pattern and its name in assembly text. -/
class CodeTable (α : Type) where
  family : String
  width : Nat
  all : List α
  bits : α → Nat
  name : α → String

namespace CodeTable

variable {α : Type} [CodeTable α]

def ofBits? (pattern : Nat) : Option α :=
  all.find? fun value => bits value == pattern

def ofName? (text : String) : Option α :=
  all.find? fun value => name value == text

end CodeTable

end DspAsm
