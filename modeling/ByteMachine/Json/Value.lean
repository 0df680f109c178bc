import ByteMachine.Text.Numeral

/-! JSON values. A number keeps its spelling, so that none is rounded, and an
object keeps all its members in order, so that one given twice can be noticed. -/
namespace ByteMachine

inductive Json where
  | null
  | bool (b : Bool)
  | number (literal : List Char)
  /-- A string; it has no content if its escapes do not spell characters. -/
  | text (content : Option String)
  | array (items : List Json)
  | object (members : List (Option String × Json))

namespace Json

instance : Inhabited Json := ⟨null⟩

def nat (n : Nat) : Json := number (Text.decimal n)

def string (s : String) : Json := text (some s)

def bytes (bs : List UInt8) : Json := array (bs.map fun b => nat b.toNat)

def record (members : List (String × Json)) : Json :=
  object (members.map fun (name, value) => (some name, value))

def asNat? : Json → Option Nat
  | number literal => Text.readNat? 10 literal
  | _ => none

def asByte? (v : Json) : Option UInt8 :=
  match v.asNat? with
  | some n => if n < 256 then some (UInt8.ofNat n) else none
  | none => none

def asWord? (v : Json) : Option UInt64 :=
  match v.asNat? with
  | some n => if n < UInt64.size then some (UInt64.ofNat n) else none
  | none => none

def asBytes? : Json → Option (List UInt8)
  | array items => items.mapM asByte?
  | _ => none

/-- A name: a string, or an object whose only member has that name and is null. -/
def asName? : Json → Option String
  | text content => content
  | object [(name, null)] => name
  | _ => none

end Json

end ByteMachine
