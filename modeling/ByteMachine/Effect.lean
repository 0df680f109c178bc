import ByteMachine.Fault
import ByteMachine.Instruction
import ByteMachine.Output

/-! What one instruction does, apart from fetching it and moving on. `effect` is
a function of the registers and the memory; `perform` also hands a printed byte
to a sink, whose refusal is a fault. -/
namespace ByteMachine

inductive Flow where
  | next
  | jump (target : UInt8)
  | halt
deriving DecidableEq

structure Effect where
  regs : Registers
  mem : Memory
  flow : Flow
  printed : Option UInt8 := none

namespace Instruction

def register (index : UInt8) : Except Fault Register := (Register.ofByte index).mapError .register

def push (value : UInt8) (regs : Registers) (mem : Memory) : Except Fault Effect := do
  let top := mem.prev regs.sp
  let mem ← (mem.write top value).mapError .memory
  return { regs := regs.setSp top, mem, flow := .next }

def pop (destination : Register) (regs : Registers) (mem : Memory) : Except Fault Effect := do
  let value ← (mem.read regs.sp).mapError .memory
  return { regs := (regs.setSp (mem.next regs.sp)).set destination value, mem, flow := .next }

def compute (op : Operation) (index : UInt8) (second : Operand) (regs : Registers)
    (mem : Memory) : Except Fault Effect := do
  let regs ← (regs.apply op index second).mapError .ofArithmetic
  return { regs, mem, flow := .next }

def effect (i : Instruction) (regs : Registers) (mem : Memory) : Except Fault Effect := do
  match i.opcode with
  | .hlt => return { regs, mem, flow := .halt }
  | .prn => return { regs, mem, flow := .next, printed := some (regs.get (← register i.a)) }
  | .push => push (regs.get (← register i.a)) regs mem
  | .pop => pop (← register i.a) regs mem
  | .jmp => return { regs, mem, flow := .jump (regs.get (← register i.a)) }
  | .jeq =>
    let target := regs.get (← register i.a)
    return { regs, mem, flow := if regs.equal then .jump target else .next }
  | .jne =>
    let target := regs.get (← register i.a)
    return { regs, mem, flow := if regs.equal then .next else .jump target }
  | .ldi => return { regs := regs.set (← register i.a) i.b, mem, flow := .next }
  | .add => compute .add i.a (.register i.b) regs mem
  | .sub => compute .sub i.a (.register i.b) regs mem
  | .mul => compute .mul i.a (.register i.b) regs mem
  | .div => compute .div i.a (.register i.b) regs mem
  | .cmp => compute .cmp i.a (.register i.b) regs mem
  | .inc => compute .inc i.a .none regs mem
  | .dec => compute .dec i.a .none regs mem

def perform {σ : Type} [Sink σ] (i : Instruction) (regs : Registers) (mem : Memory) (out : σ) :
    Except Fault Effect × σ :=
  match i.effect regs mem with
  | .error fault => (.error fault, out)
  | .ok done =>
    match done.printed with
    | none => (.ok done, out)
    | some b =>
      match Sink.write out b with
      | (.ok (), out) => (.ok done, out)
      | (.error reason, out) => (.error (.output reason), out)

end Instruction

end ByteMachine
