import ByteMachine.Registers

/-! Arithmetic on bytes, modulo 256, and comparison. `compute` works on values;
`Registers.apply` takes its operands from the register file and puts a value
into the first register or an order into the flags. -/
namespace ByteMachine

inductive Operation where
  | add | sub | mul | div | inc | dec | cmp
deriving DecidableEq

inductive Operand where
  | register (index : UInt8)
  | immediate (value : UInt8)
  | none
deriving DecidableEq

inductive Computed where
  | value (v : UInt8)
  | order (o : Ordering)
deriving DecidableEq

inductive ArithmeticError where
  | divisionByZero
  | register (e : RegisterError)
deriving DecidableEq

def ArithmeticError.message : ArithmeticError → String
  | .divisionByZero => "division by zero"
  | .register e => e.message

def Operation.compute (op : Operation) (a b : UInt8) : Except ArithmeticError Computed :=
  match op with
  | .add => .ok (.value (a + b))
  | .sub => .ok (.value (a - b))
  | .mul => .ok (.value (a * b))
  | .div => if b = 0 then .error .divisionByZero else .ok (.value (a / b))
  | .inc => .ok (.value (a + 1))
  | .dec => .ok (.value (a - 1))
  | .cmp => .ok (.order (compare a b))

namespace Operand

def read (regs : Registers) : Operand → Except RegisterError UInt8
  | .register index => regs.read index
  | .immediate value => .ok value
  | .none => .ok 0

end Operand

def Registers.apply (regs : Registers) (op : Operation) (index : UInt8) (second : Operand) :
    Except ArithmeticError Registers := do
  let a ← (regs.read index).mapError .register
  let b ← (second.read regs).mapError .register
  match ← op.compute a b with
  | .value v => (regs.write index v).mapError .register
  | .order o => return regs.setCompare o

end ByteMachine
