import ByteMachine.Text.Numeral
import ByteMachine.Text.Uppercase

/-! The instruction set. An opcode is one byte whose two high bits count the
operand bytes that follow it in memory. -/
namespace ByteMachine

inductive Opcode where
  | hlt | prn | pop | push | jmp | jeq | jne | inc | dec | ldi | cmp | add | sub | mul | div
deriving DecidableEq

/-- The number of operand bytes that any byte announces when it is read as an opcode. -/
def operandCount (b : UInt8) : Nat := (b >>> 6).toNat

namespace Opcode

def all : List Opcode :=
  [hlt, prn, pop, push, jmp, jeq, jne, inc, dec, ldi, cmp, add, sub, mul, div]

theorem mem_all (op : Opcode) : op ∈ all := by cases op <;> decide

def byte : Opcode → UInt8
  | hlt => 0b00000001
  | prn => 0b01000011
  | pop => 0b01001100
  | push => 0b01001101
  | jmp => 0b01010000
  | jeq => 0b01010001
  | jne => 0b01010010
  | inc => 0b01111000
  | dec => 0b01111001
  | ldi => 0b10011001
  | cmp => 0b10100000
  | add => 0b10101000
  | sub => 0b10101001
  | mul => 0b10101010
  | div => 0b10101011

def ofByte? (b : UInt8) : Option Opcode := all.find? (·.byte == b)

theorem ofByte?_byte (op : Opcode) : ofByte? op.byte = some op := by cases op <;> decide

theorem ofByte?_eq_some_iff {b : UInt8} {op : Opcode} : ofByte? b = some op ↔ op.byte = b := by
  constructor
  · intro h
    simpa using List.find?_some h
  · rintro rfl
    exact ofByte?_byte op

def mnemonic : Opcode → String
  | hlt => "HLT"
  | prn => "PRN"
  | pop => "POP"
  | push => "PUSH"
  | jmp => "JMP"
  | jeq => "JEQ"
  | jne => "JNE"
  | inc => "INC"
  | dec => "DEC"
  | ldi => "LDI"
  | cmp => "CMP"
  | add => "ADD"
  | sub => "SUB"
  | mul => "MUL"
  | div => "DIV"

def name : Opcode → String
  | hlt => "Hlt"
  | prn => "Prn"
  | pop => "Pop"
  | push => "Push"
  | jmp => "Jmp"
  | jeq => "Jeq"
  | jne => "Jne"
  | inc => "Inc"
  | dec => "Dec"
  | ldi => "Ldi"
  | cmp => "Cmp"
  | add => "Add"
  | sub => "Sub"
  | mul => "Mul"
  | div => "Div"

def ofName? (t : String) : Option Opcode := all.find? (·.name == t)

theorem ofName?_name (op : Opcode) : ofName? op.name = some op := by cases op <;> decide

def ofMnemonic? (t : List Char) : Option Opcode :=
  all.find? fun op => Text.sameUpToCase op.mnemonic.toList t

def operands (op : Opcode) : Nat := operandCount op.byte

def size (op : Opcode) : Nat := op.operands + 1

theorem size_pos (op : Opcode) : 0 < op.size := Nat.succ_pos _

theorem operands_le (op : Opcode) : op.operands ≤ 2 := by cases op <;> decide

def isBranch : Opcode → Bool
  | jmp | jeq | jne => true
  | _ => false

end Opcode

inductive DecodeError where
  | invalidOpcode (byte : UInt8)
  | truncated
deriving DecidableEq

def DecodeError.message : DecodeError → String
  | .invalidOpcode byte => s!"invalid opcode 0b{String.ofList (Text.binary byte)}"
  | .truncated => "no instruction bytes to decode"

def Opcode.ofByte (b : UInt8) : Except DecodeError Opcode :=
  match ofByte? b with
  | some op => .ok op
  | none => .error (.invalidOpcode b)

end ByteMachine
