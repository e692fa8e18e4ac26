import DspAsm.Layout
import DspAsm.Program.Basic

namespace DspAsm

def tabStop : Nat := 8

/-- The number of tabs from a column on: one, and more as long as the stop that is reached lies short of the width. -/
def tabsAfter (width column : Nat) : Nat :=
  let stop := (column / tabStop + 1) * tabStop
  if width ≤ stop then 1 else tabsAfter width stop + 1
termination_by width - column
decreasing_by
  simp only [tabStop, stop] at *
  omega

def columns (width : Nat) : List String → String
  | [] => ""
  | [cell] => cell
  | cell :: cells =>
    cell ++ String.ofList (List.replicate (tabsAfter width cell.length) '\t') ++ columns width cells

def Special.listingPhrase (scope : Scope) (command : Special) : Phrase :=
  match command.target?.bind fun target => (scope.labelsAt target).head? with
  | none => command.phrase
  | some label =>
    match command with
    | jump command => command.phraseWith label
    | mvi command => command.phraseWith label
    | stop _ | loop _ | dma _ => command.phrase

def Instruction.row (scope : Scope) (layout : Layout) : Instruction → String
  | compound slots => columns layout.columnWidth (slots.phrases.map Phrase.text)
  | special command => (command.listingPhrase scope).text

def Scope.labelLines (scope : Scope) (index : Nat) : List String :=
  (scope.labelsAt index).map fun name => name ++ ":"

namespace Program

def listingLines (program : Program) (layout : Layout) : List String :=
  (program.instructions.zipIdx.flatMap fun (instruction, index) =>
    program.scope.labelLines index ++ [instruction.row program.scope layout]) ++
    program.scope.labelLines program.length

def listing (program : Program) (layout : Layout) : String :=
  String.join ((program.listingLines layout).map fun line => line ++ "\n")

end Program

end DspAsm
