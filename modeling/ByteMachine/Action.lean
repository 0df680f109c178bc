import ByteMachine.Effect

/-! How the machine carries out an instruction: as an action that reads and writes
the registers, the memory and the sink one after the other. A fault cuts an action
short, and what was written before it stays written. -/
namespace ByteMachine

structure Core (σ : Type) where
  regs : Registers
  mem : Memory
  out : σ

abbrev Action (σ : Type) := ExceptT Fault (StateM (Core σ))

namespace Action
variable {σ α β : Type}

def runOn (x : Action σ α) (core : Core σ) : Except Fault α × Core σ := x.run.run core

def readRegister (index : UInt8) : Action σ UInt8 := do
  ((← get).regs.read index).mapError Fault.register

def writeRegister (index value : UInt8) : Action σ Unit := do
  let regs ← ((← get).regs.write index value).mapError Fault.register
  modify ({ · with regs })

def readCell (address : UInt8) : Action σ UInt8 := do
  ((← get).mem.read address).mapError Fault.memory

def writeCell (address value : UInt8) : Action σ Unit := do
  let mem ← ((← get).mem.write address value).mapError Fault.memory
  modify ({ · with mem })

def print [Sink σ] (b : UInt8) : Action σ Unit := do
  let (result, out) := Sink.write (← get).out b
  modify ({ · with out })
  result.mapError Fault.output

def arithmetic (op : Operation) (index : UInt8) (second : Operand) : Action σ Flow := do
  let regs ← ((← get).regs.apply op index second).mapError Fault.ofArithmetic
  modify ({ · with regs })
  return .next

/-- The pointer moves only after the value has been stored. -/
def push (index : UInt8) : Action σ Flow := do
  let value ← readRegister index
  let top := (← get).mem.prev (← get).regs.sp
  writeCell top value
  writeRegister Register.stackPointer.toByte top
  return .next

/-- The destination is written after the pointer has moved, so a value popped
into the stack pointer stays there. -/
def pop (index : UInt8) : Action σ Flow := do
  let _ ← readRegister index
  let value ← readCell (← get).regs.sp
  let above := (← get).mem.next (← get).regs.sp
  writeRegister Register.stackPointer.toByte above
  writeRegister index value
  return .next

def printRegister [Sink σ] (index : UInt8) : Action σ Flow := do
  print (← readRegister index)
  return .next

def load (index value : UInt8) : Action σ Flow := do
  writeRegister index value
  return .next

def jumpIf (condition : Registers → Bool) (index : UInt8) : Action σ Flow := do
  let target ← readRegister index
  return if condition (← get).regs then .jump target else .next

end Action

namespace Instruction
variable {σ : Type} [Sink σ]

def action (i : Instruction) : Action σ Flow :=
  match i.opcode with
  | .hlt => return .halt
  | .prn => .printRegister i.a
  | .pop => .pop i.a
  | .push => .push i.a
  | .jmp => .jumpIf (fun _ => true) i.a
  | .jeq => .jumpIf Registers.equal i.a
  | .jne => .jumpIf (fun regs => !regs.equal) i.a
  | .inc => .arithmetic .inc i.a .none
  | .dec => .arithmetic .dec i.a .none
  | .ldi => .load i.a i.b
  | .cmp => .arithmetic .cmp i.a (.register i.b)
  | .add => .arithmetic .add i.a (.register i.b)
  | .sub => .arithmetic .sub i.a (.register i.b)
  | .mul => .arithmetic .mul i.a (.register i.b)
  | .div => .arithmetic .div i.a (.register i.b)

def run (i : Instruction) (core : Core σ) : Except Fault Flow × Core σ :=
  i.action.runOn core

end Instruction

end ByteMachine
