import DspAsm.Json.Basic
import DspAsm.Text.Numeral

namespace DspAsm.Json

def escape : Char → String
  | '"' => "\\\""
  | '\\' => "\\\\"
  | '\x08' => "\\b"
  | '\x0c' => "\\f"
  | '\n' => "\\n"
  | '\r' => "\\r"
  | '\t' => "\\t"
  | c => if c.toNat < 0x20 then "\\u" ++ Numeral.hex 4 c.toNat else c.toString

def quote (text : String) : String :=
  "\"" ++ String.join (text.toList.map escape) ++ "\""

def newline (level : Nat) : String :=
  "\n" ++ String.ofList (List.replicate (2 * level) ' ')

def block (opening closing : String) (level : Nat) (items : List String) : String :=
  if items = [] then opening ++ closing
  else
    opening ++ ",".intercalate (items.map fun item => newline (level + 1) ++ item) ++
      newline level ++ closing

mutual

/-- The text of a value whose first line starts at a level. What has no form of its own is written as `null`. -/
def prettyAt (level : Nat) : Json → String
  | null | other => "null"
  | bool value => if value then "true" else "false"
  | int value => toString value
  | str text => quote text
  | arr items => block "[" "]" level (prettyItems (level + 1) items)
  | obj fields => block "\x7b" "\x7d" level (prettyFields (level + 1) fields)

def prettyItems (level : Nat) : List Json → List String
  | [] => []
  | item :: items => prettyAt level item :: prettyItems level items

def prettyFields (level : Nat) : List (String × Json) → List String
  | [] => []
  | (name, value) :: fields => (quote name ++ ": " ++ prettyAt level value) :: prettyFields level fields

end

def pretty (json : Json) : String :=
  prettyAt 0 json

end DspAsm.Json
