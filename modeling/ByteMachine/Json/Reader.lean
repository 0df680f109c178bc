import ByteMachine.Json.Token
import ByteMachine.Json.Value

/-! Reading JSON. The reader goes through the tokens with a stack of the arrays and
objects that are still open, so a value may be nested to any depth. -/
namespace ByteMachine.Json

/-- An array or object that is still open, its parts so far with the last one first. -/
inductive Frame where
  | array (items : List Json)
  | object (members : List (Option String × Json)) (name : Option String)

inductive Due where
  | value (stack : List Frame)
  | firstItem (stack : List Frame)
  | firstName (stack : List Frame)
  | name (members : List (Option String × Json)) (stack : List Frame)
  | colon (members : List (Option String × Json)) (name : Option String) (stack : List Frame)
  | more (value : Json) (stack : List Frame)

def Due.begin (stack : List Frame) : Token → Option Due
  | .null => some (more .null stack)
  | .bool b => some (more (.bool b) stack)
  | .number literal => some (more (.number literal) stack)
  | .text content => some (more (.text content) stack)
  | .openArray => some (firstItem stack)
  | .openObject => some (firstName stack)
  | _ => none

def Due.feed : Due → Token → Option Due
  | value stack, token => begin stack token
  | firstItem stack, .closeArray => some (more (.array []) stack)
  | firstItem stack, token => begin (.array [] :: stack) token
  | firstName stack, .closeObject => some (more (.object []) stack)
  | firstName stack, .text content => some (colon [] content stack)
  | name members stack, .text content => some (colon members content stack)
  | colon members key stack, .colon => some (value (.object members key :: stack))
  | more v (.array items :: stack), .comma => some (value (.array (v :: items) :: stack))
  | more v (.array items :: stack), .closeArray => some (more (.array (v :: items).reverse) stack)
  | more v (.object members key :: stack), .comma => some (name ((key, v) :: members) stack)
  | more v (.object members key :: stack), .closeObject =>
    some (more (.object ((key, v) :: members).reverse) stack)
  | _, _ => none

def ofTokens? (ts : List Token) : Option Json :=
  match ts.foldlM Due.feed (.value []) with
  | some (.more v []) => some v
  | _ => none

def parse (t : String) : Option Json := (tokens t.toList).bind ofTokens?

end ByteMachine.Json
