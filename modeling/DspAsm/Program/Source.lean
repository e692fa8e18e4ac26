import DspAsm.Instruction.Assembly
import DspAsm.Program.Basic

/-!
Programs from source text.

Assembling goes over the lines twice. The survey binds the labels and constants and sets the instruction lines
aside; only then are these read, so an operand may name a symbol that is bound further down. A fault of the survey
therefore wins over a fault of any instruction line.
-/

namespace DspAsm
open Text

inductive SourceLine where
  | blank
  | label (name : String) (tokens : List String)
  | constant (definition : String)
  | instruction (tokens : List String)
  deriving DecidableEq

/-- Tells what a line is for. A first token that ends in a colon declares a label, even where the line has an
equals sign as well. -/
def SourceLine.read (line : List Char) : SourceLine :=
  match tokens line with
  | [] => blank
  | first :: later =>
    if first.toList.getLast? = some ':' then label first later
    else if '=' ∈ stripComment line then constant (String.ofList (upper (stripComment line)))
    else instruction (first :: later)

def locate {α : Type} (line : Nat) (tokens : List String) (result : Except Fault α) : Except Fault α :=
  result.mapError fun fault => fault.atLine line tokens

structure Place where
  line : Nat
  tokens : List String
  deriving DecidableEq

structure Survey where
  scope : Scope := {}
  pending : Array Place := #[]

namespace Survey

def setAside (survey : Survey) (line : Nat) (tokens : List String) : Survey :=
  { survey with pending := survey.pending.push ⟨line, tokens⟩ }

def add (survey : Survey) : List Char × Nat → Except Fault Survey
  | (text, line) =>
    match SourceLine.read text with
    | .blank => .ok survey
    | .label name later => do
      let scope ← locate line (tokens text) (survey.scope.addLabel name survey.pending.size)
      let survey := { survey with scope }
      return if later = [] then survey else survey.setAside line later
    | .constant definition => do
      let scope ← locate line (tokens text) (survey.scope.define definition)
      return { survey with scope }
    | .instruction tokens => .ok (survey.setAside line tokens)

def ofText (source : String) : Except Fault Survey :=
  ((lines source.toList).zipIdx 1).foldlM add {}

end Survey

/-- Assembles a source text. The first fault is the answer. -/
def Program.assemble (source : String) : Except Fault Program := do
  let survey ← Survey.ofText source
  if programCapacity < survey.pending.size then
    throw (.programTooLarge survey.pending.size)
  let instructions ← survey.pending.toList.mapM fun place =>
    locate place.line place.tokens (Instruction.ofTokens survey.scope place.tokens)
  return { instructions, scope := survey.scope }

end DspAsm
