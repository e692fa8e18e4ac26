import DspAsm.Json.Basic

/-!
Shapes of JSON values: how records, variants and numbers are laid out.

A record is an object with named fields, where other names are passed over and a name must not come twice. It may
also be an array of its fields in order. A variant is an object with one field, or only its name where it has no
content.
-/

namespace DspAsm.Json

/-- The field of an object. The outer option is empty if the name comes twice, the inner one if it is missing. -/
def field? (fields : List (String × Json)) (name : String) : Option (Option Json) :=
  match fields.filter fun field => field.1 == name with
  | [] => some none
  | [field] => some (some field.2)
  | _ => none

def objectFields? (names : List String) : Json → Option (List (Option Json))
  | obj fields => names.mapM (field? fields)
  | _ => none

def recordFields? (names : List String) : Json → Option (List (Option Json))
  | arr items => if items.length = names.length then some (items.map some) else none
  | json => objectFields? names json

/-- The fields of a record whose fields all have defaults, so that also an array may leave out the last ones. -/
def sparseFields? (names : List String) : Json → Option (List (Option Json))
  | arr items =>
    if items.length ≤ names.length then
      some (items.map some ++ List.replicate (names.length - items.length) none)
    else none
  | json => objectFields? names json

def variant? : Json → Option (String × Json)
  | str name => some (name, null)
  | obj [(name, content)] => some (name, content)
  | _ => none

def bool? : Json → Option Bool
  | bool value => some value
  | _ => none

def string? : Json → Option String
  | str text => some text
  | _ => none

def intWithin? (least most : Int) : Json → Option Int
  | int value => if least ≤ value ∧ value ≤ most then some value else none
  | _ => none

def natOfWidth? (width : Nat) (json : Json) : Option Nat :=
  (intWithin? 0 ((1 <<< width : Nat) - 1) json).map Int.toNat

def intOfWidth? (width : Nat) (json : Json) : Option Int :=
  let half : Int := (1 <<< (width - 1) : Nat)
  intWithin? (-half) (half - 1) json

def byte? (json : Json) : Option UInt8 :=
  (natOfWidth? 8 json).map UInt8.ofNat

end DspAsm.Json
