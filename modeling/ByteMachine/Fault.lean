import ByteMachine.Arithmetic
import ByteMachine.Memory

/-! The states of a machine and what can stop it. -/
namespace ByteMachine

inductive RunState where
  | running | halted | faulted
deriving DecidableEq

namespace RunState

def all : List RunState := [running, halted, faulted]

def name : RunState → String
  | running => "Running"
  | halted => "Halted"
  | faulted => "Error"

def ofName? (t : String) : Option RunState := all.find? (·.name == t)

theorem ofName?_name (s : RunState) : ofName? s.name = some s := by cases s <;> decide

end RunState

inductive Fault where
  | notRunning (state : RunState)
  | invalidOpcode (byte pc : UInt8)
  | divisionByZero
  | register (e : RegisterError)
  | memory (e : MemoryError)
  | output (reason : String)
deriving DecidableEq

namespace Fault

def ofArithmetic : ArithmeticError → Fault
  | .divisionByZero => .divisionByZero
  | .register e => .register e

def message : Fault → String
  | notRunning state => s!"CPU not running: {state.name}"
  | invalidOpcode byte pc =>
    let binary := String.ofList (Text.binary byte)
    let address := String.ofList (Text.hexLower pc.toNat)
    s!"invalid instruction 0b{binary} at PC=0x{address}"
  | divisionByZero => "division by zero"
  | register e => s!"register error: {e.message}"
  | memory e => s!"memory error: {e.message}"
  | output reason => s!"output error: {reason}"

end Fault

end ByteMachine
