/-!
JSON values.

Only the values that this library reads or writes have a form of their own. Any other well-formed value is
`other`: a number that is no integer of 64 bits, and a string or an object with a name that denotes no text.
-/

namespace DspAsm

inductive Json where
  | null
  | bool (value : Bool)
  | int (value : Int)
  | str (text : String)
  | arr (items : List Json)
  | obj (fields : List (String × Json))
  | other
  deriving Inhabited

def Json.nat (value : Nat) : Json :=
  .int value

end DspAsm
