import ByteMachine.Json.Value

/-! Records in JSON. A record with named fields is written as an object or as an
array of its fields in order. In an object every name has to be readable and a
field may not occur twice; members with other names are passed over. -/
namespace ByteMachine.Json

def given (name : String) (members : List (Option String × Json)) : List Json :=
  members.filterMap fun (key, value) => if key = some name then some value else none

/-- The value of a field if it is given at most once. -/
def field? (members : List (Option String × Json)) (name : String) : Option (Option Json) :=
  match given name members with
  | [] => some none
  | [value] => some (some value)
  | _ => none

/-- The fields of a record in the order of their names, each with its value if it
has one. An array may end before the last field, but may not have more items. -/
def fields? (names : List String) : Json → Option (List (Option Json))
  | array items =>
    if items.length ≤ names.length then
      some (items.map some ++ List.replicate (names.length - items.length) none)
    else none
  | object members =>
    if members.all (·.1.isSome) then names.mapM (field? members) else none
  | _ => none

def isShort (names : List String) : Json → Bool
  | array items => items.length < names.length
  | _ => false

end ByteMachine.Json
