import DspAsm.Interchange.Command
import DspAsm.Json.Reader
import DspAsm.Layout
import DspAsm.Program.Basic

namespace DspAsm
open Json (variant? recordFields? sparseFields?)

namespace Slots

def toJson (slots : Slots) : Json :=
  .obj [("alu", opToJson slots.alu), ("xbus", slots.xBus.toJson), ("ybus", slots.yBus.toJson),
    ("d1bus", slots.d1Bus.toJson)]

def ofJson? (json : Json) : Option Slots := do
  match ← recordFields? ["alu", "xbus", "ybus", "d1bus"] json with
  | [some alu, some xBus, some yBus, some d1Bus] =>
    return {
      alu := ← opOfJson? alu
      xBus := ← XBus.ofJson? xBus
      yBus := ← YBus.ofJson? yBus
      d1Bus := ← D1Bus.ofJson? d1Bus }
  | _ => none

end Slots

namespace Instruction

def toJson : Instruction → Json
  | compound slots => .obj [("Compound", slots.toJson)]
  | special command => .obj [("Special", command.toJson)]

def ofJson? (json : Json) : Option Instruction := do
  match ← variant? json with
  | ("Compound", content) => (Slots.ofJson? content).map compound
  | ("Special", content) => (Special.ofJson? content).map special
  | _ => none

end Instruction

namespace SymbolTable

def toJson {α : Type} (value : α → Json) (table : SymbolTable α) : Json :=
  .obj (table.entries.map fun entry => (entry.1, value entry.2))

def ofJson? {α : Type} (value? : Json → Option α) : Json → Option (SymbolTable α)
  | .obj fields => do
    let entries ← fields.mapM fun field => (value? field.2).map (field.1, ·)
    return entries.foldl (fun table entry => table.insert entry.1 entry.2) .empty
  | _ => none

end SymbolTable

namespace Scope

def toJson (scope : Scope) : Json :=
  .obj [("labels", scope.labels.toJson .nat), ("constants", scope.constants.toJson .int)]

def ofJson? (json : Json) : Option Scope := do
  match ← recordFields? ["labels", "constants"] json with
  | [some labels, some constants] =>
    return {
      labels := ← SymbolTable.ofJson? (Json.natOfWidth? 64) labels
      constants := ← SymbolTable.ofJson? (Json.intOfWidth? 64) constants }
  | _ => none

end Scope

def arrayOfJson? {α : Type} (item? : Json → Option α) : Json → Option (List α)
  | .arr items => items.mapM item?
  | _ => none

namespace Program

def ofJson? (json : Json) : Option Program := do
  match ← recordFields? ["instructions", "context"] json with
  | [some instructions, some scope] =>
    return {
      instructions := ← arrayOfJson? Instruction.ofJson? instructions
      scope := ← Scope.ofJson? scope }
  | _ => none

def image (program : Program) : Json :=
  .obj [("words", .arr (program.words.map fun word => .str (Numeral.hexWord word.toNat))),
    ("labels", program.scope.labels.toJson .nat),
    ("instructions", .arr (program.instructions.map Instruction.toJson))]

end Program

namespace Layout

def toJson (layout : Layout) : Json :=
  .obj [("column_width", .nat layout.columnWidth), ("auto_labels", .bool layout.autoLabels),
    ("label_prefix", .str layout.labelStem)]

def fieldOr? {α : Type} (standard : α) (read? : Json → Option α) : Option Json → Option α
  | none => some standard
  | some json => read? json

def ofJson? (json : Json) : Option Layout := do
  let standard : Layout := {}
  match ← sparseFields? ["column_width", "auto_labels", "label_prefix"] json with
  | [columnWidth, autoLabels, labelStem] =>
    return {
      columnWidth := ← fieldOr? standard.columnWidth (Json.natOfWidth? 64) columnWidth
      autoLabels := ← fieldOr? standard.autoLabels Json.bool? autoLabels
      labelStem := ← fieldOr? standard.labelStem Json.string? labelStem }
  | _ => none

def ofText? (text : String) : Option Layout :=
  (Json.ofText? text).bind ofJson?

end Layout

end DspAsm
