import ByteMachine.Opcode

/-! Instructions: an opcode and the two bytes after it, both of which are always
read and of which only the announced operands count. -/
namespace ByteMachine

structure Instruction where
  opcode : Opcode
  a : UInt8
  b : UInt8
deriving DecidableEq

namespace Instruction

/-- The instruction at the front of a list of bytes; bytes that are missing read as zero. -/
def decode : List UInt8 → Except DecodeError Instruction
  | [] => .error .truncated
  | first :: rest => (Opcode.ofByte first).map fun op => ⟨op, rest.getD 0 0, rest.getD 1 0⟩

def encode (i : Instruction) : List UInt8 := [i.opcode.byte, i.a, i.b].take i.opcode.size

theorem length_encode (i : Instruction) : i.encode.length = i.opcode.size := by
  have := i.opcode.operands_le
  simp only [encode, List.length_take, List.length_cons, List.length_nil, Opcode.size]
  omega

def registerSource (index : UInt8) : List Char := 'R' :: Text.decimal index.toNat

def operandSource (i : Instruction) : List Char :=
  match i.opcode.operands with
  | 0 => []
  | 1 => ' ' :: registerSource i.a
  | _ =>
    ' ' :: registerSource i.a ++ ',' :: ' ' ::
      if i.opcode = .ldi then Text.decimal i.b.toNat else registerSource i.b

def source (i : Instruction) : List Char := i.opcode.mnemonic.toList ++ i.operandSource

def text (i : Instruction) : String := String.ofList i.source

end Instruction

end ByteMachine
