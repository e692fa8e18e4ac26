import DspAsm.Command.Basic
import DspAsm.Json.Shape
import DspAsm.Text.Split

namespace DspAsm
open Json (variant? recordFields? objectFields?)

def capitalized : List Char → List Char
  | [] => []
  | c :: later => c :: later.map Char.toLower

/-- A name such as `MOV_SRC_P` in camel case, such as `MovSrcP`. -/
def camelCase (name : String) : String :=
  String.ofList ((Text.pieces (· == '_') name.toList).flatMap capitalized)

namespace CodeTable

variable {α : Type} [CodeTable α]

def jsonName (value : α) : String :=
  camelCase (name value)

def ofJsonName? (text : String) : Option α :=
  all.find? fun value => jsonName value == text

def toJson (value : α) : Json :=
  .str (jsonName value)

def ofJson? (json : Json) : Option α := do
  match ← variant? json with
  | (text, .null) => ofJsonName? text
  | _ => none

end CodeTable

open CodeTable (jsonName ofJsonName?)

def optionToJson {α : Type} [CodeTable α] : Option α → Json
  | none => .null
  | some value => CodeTable.toJson value

def optionOfJson? {α : Type} [CodeTable α] : Json → Option (Option α)
  | .null => some none
  | json => (CodeTable.ofJson? json).map some

def opToJson {α : Type} [CodeTable α] (op : α) : Json :=
  .obj [("opcode", CodeTable.toJson op)]

def opOfJson? {α : Type} [CodeTable α] (json : Json) : Option α := do
  match ← recordFields? ["opcode"] json with
  | [some op] => CodeTable.ofJson? op
  | _ => none

namespace Move

variable {Op α : Type} [CodeTable Op]

def toJson (op : Op) : Option XySource → Json
  | none => CodeTable.toJson op
  | some source => .obj [(jsonName op, CodeTable.toJson source)]

def ofJson? (ofOp : Op → α ⊕ (XySource → α)) (json : Json) : Option α := do
  let (text, content) ← variant? json
  match ofOp (← ofJsonName? text), content with
  | .inl command, .null => some command
  | .inl _, _ => none
  | .inr move, content => (CodeTable.ofJson? content).map move

end Move

def XBus.toJson (command : XBus) : Json :=
  Move.toJson command.op command.source?

def XBus.ofJson? : Json → Option XBus :=
  Move.ofJson? ofOp

def YBus.toJson (command : YBus) : Json :=
  Move.toJson command.op command.source?

def YBus.ofJson? : Json → Option YBus :=
  Move.ofJson? ofOp

namespace D1Bus

def toJson : D1Bus → Json
  | nop => .str "Nop"
  | movImm immediate destination =>
    .obj [("MovImm", .obj [("immediate", .nat immediate.toNat), ("destination", CodeTable.toJson destination)])]
  | movSrc source destination =>
    .obj [("MovSrc", .obj [("source", CodeTable.toJson source), ("destination", CodeTable.toJson destination)])]

def ofJson? (json : Json) : Option D1Bus := do
  match ← variant? json with
  | ("Nop", .null) => some nop
  | ("MovImm", content) =>
    match ← objectFields? ["immediate", "destination"] content with
    | [some immediate, some destination] =>
      return movImm (← Json.byte? immediate) (← CodeTable.ofJson? destination)
    | _ => none
  | ("MovSrc", content) =>
    match ← objectFields? ["source", "destination"] content with
    | [some source, some destination] =>
      return movSrc (← CodeTable.ofJson? source) (← CodeTable.ofJson? destination)
    | _ => none
  | _ => none

end D1Bus

namespace DmaCount

def toJson : DmaCount → Json
  | immediate length => .obj [("Immediate", .nat length.toNat)]
  | referenced counter => .obj [("Referenced", CodeTable.toJson counter)]

def ofJson? (json : Json) : Option DmaCount := do
  match ← variant? json with
  | ("Immediate", content) => (Json.byte? content).map immediate
  | ("Referenced", content) => (CodeTable.ofJson? content).map referenced
  | _ => none

end DmaCount

namespace Dma

def toJson (command : Dma) : Json :=
  .obj [("hold", .bool command.hold), ("address_add_mode", .nat command.addMode.toNat),
    ("dma_mode", CodeTable.toJson command.direction),
    ("ram_address_pointer", CodeTable.toJson command.pointer), ("counter", command.count.toJson)]

def ofJson? (json : Json) : Option Dma := do
  match ← recordFields? ["hold", "address_add_mode", "dma_mode", "ram_address_pointer", "counter"] json with
  | [some hold, some addMode, some direction, some pointer, some count] =>
    return {
      hold := ← Json.bool? hold
      addMode := ← Json.byte? addMode
      direction := ← CodeTable.ofJson? direction
      pointer := ← CodeTable.ofJson? pointer
      count := ← DmaCount.ofJson? count }
  | _ => none

end Dma

namespace Mvi

def toJson (command : Mvi) : Json :=
  .obj [("destination", CodeTable.toJson command.destination), ("immediate", .int command.immediate),
    ("condition", optionToJson command.condition)]

def ofJson? (json : Json) : Option Mvi := do
  match ← recordFields? ["destination", "immediate", "condition"] json with
  | [some destination, some immediate, condition] =>
    return {
      destination := ← CodeTable.ofJson? destination
      immediate := ← Json.intOfWidth? 32 immediate
      condition := ← optionOfJson? (condition.getD .null) }
  | _ => none

end Mvi

namespace Jump

def toJson (command : Jump) : Json :=
  .obj [("condition", optionToJson command.condition), ("target", .nat command.target.toNat)]

def ofJson? (json : Json) : Option Jump := do
  match ← recordFields? ["condition", "target"] json with
  | [condition, some target] =>
    return { condition := ← optionOfJson? (condition.getD .null), target := ← Json.byte? target }
  | _ => none

end Jump

namespace Special

def toJson : Special → Json
  | stop op => .obj [("End", opToJson op)]
  | loop op => .obj [("Loop", opToJson op)]
  | dma command => .obj [("Dma", command.toJson)]
  | mvi command => .obj [("Mvi", command.toJson)]
  | jump command => .obj [("Jump", command.toJson)]

def ofJson? (json : Json) : Option Special := do
  match ← variant? json with
  | ("End", content) => (opOfJson? content).map stop
  | ("Loop", content) => (opOfJson? content).map loop
  | ("Dma", content) => (Dma.ofJson? content).map dma
  | ("Mvi", content) => (Mvi.ofJson? content).map mvi
  | ("Jump", content) => (Jump.ofJson? content).map jump
  | _ => none

end Special

namespace Command

def toJson : Command → Json
  | alu op => .obj [("Alu", opToJson op)]
  | xBus command => .obj [("XBus", command.toJson)]
  | yBus command => .obj [("YBus", command.toJson)]
  | d1Bus command => .obj [("D1Bus", command.toJson)]
  | special command => .obj [("Special", command.toJson)]

def ofJson? (json : Json) : Option Command := do
  match ← variant? json with
  | ("Alu", content) => (opOfJson? content).map alu
  | ("XBus", content) => (XBus.ofJson? content).map xBus
  | ("YBus", content) => (YBus.ofJson? content).map yBus
  | ("D1Bus", content) => (D1Bus.ofJson? content).map d1Bus
  | ("Special", content) => (Special.ofJson? content).map special
  | _ => none

end Command

end DspAsm
