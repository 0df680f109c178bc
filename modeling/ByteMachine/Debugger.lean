import ByteMachine.Configuration
import ByteMachine.Listing

/-! The debugger: a machine that is stepped one instruction at a time, by hand or
by the ticks of a clock, and stops before an instruction at a breakpoint. -/
namespace ByteMachine

inductive Status where
  | ready
  | reset
  | running
  | stopped (state : RunState)
  | stepped (pc : UInt8) (i : Instruction)
  | faulted (f : Fault)
  | finished (state : RunState) (cycles : UInt64)
  | breakpoint (pc : UInt8)
  | breakpointSet (pc : UInt8)
  | breakpointRemoved (pc : UInt8)
  | badConfiguration (e : MemoryError)
  | loadFailed (e : MemoryError)
deriving DecidableEq

namespace Status

def address (pc : UInt8) : String := String.ofList (Text.hex pc.toNat)

def message : Status → String
  | ready => "Ready. Press 's' to step, 'r' to run, 'q' to quit."
  | reset => "Reset. Ready."
  | running => "Running..."
  | stopped state => s!"CPU stopped: {state.name}"
  | stepped pc i => s!"PC={address pc}: {i.text}"
  | faulted f => s!"Error: {f.message}"
  | finished state cycles => s!"{state.name} after {cycles.toNat} cycles"
  | breakpoint pc => s!"Breakpoint at PC={address pc}"
  | breakpointSet pc => s!"Set breakpoint at PC={address pc}"
  | breakpointRemoved pc => s!"Removed breakpoint at PC={address pc}"
  | badConfiguration e => s!"Bad configuration: {e.message}"
  | loadFailed e => s!"Load failed: {e.message}"

end Status

structure Debugger where
  machine : Machine
  program : List UInt8
  config : Configuration
  output : Array UInt8
  breakpoints : List UInt8
  running : Bool
  status : Status
  scroll : Nat
  /-- Whether the next tick passes over a breakpoint. -/
  passOver : Bool

namespace Debugger

def reload (d : Debugger) : Except Status Machine := do
  let blank ← d.config.build.mapError .badConfiguration
  let (result, machine) := blank.load d.program
  (result.mapError .loadFailed).map fun _ => machine

/-- Starts over with the program reloaded. If that fails, the machine only stops. -/
def reset (d : Debugger) : Debugger :=
  let d := { d with output := #[], running := false }
  match d.reload with
  | .ok machine => { d with machine, status := .reset }
  | .error status => { d with machine := d.machine.fault, status }

def start (program : List UInt8) (config : Configuration) : Debugger :=
  let d := reset ⟨.fresh, program, config, #[], [], false, .reset, 0, false⟩
  if d.machine.isRunning then { d with status := .ready } else d

def step (d : Debugger) : Debugger :=
  if d.machine.isRunning then
    let pc := d.machine.regs.pc
    match d.machine.step d.output with
    | ⟨.ok i, machine, output⟩ => { d with machine, output, status := .stepped pc i }
    | ⟨.error f, machine, output⟩ =>
      { d with machine, output, status := .faulted f, running := false }
  else { d with status := .stopped d.machine.state, running := false }

/-- From now on ticks execute instructions, the first one even at a breakpoint. -/
def run (d : Debugger) : Debugger :=
  { d with running := true, passOver := true, status := .running }

def pause (d : Debugger) : Debugger := { d with running := false }

def tick (d : Debugger) : Debugger :=
  if !d.running then d
  else if !d.machine.isRunning then
    { d with running := false, status := .finished d.machine.state d.machine.cycles }
  else if d.breakpoints.contains d.machine.regs.pc && !d.passOver then
    { d with running := false, status := .breakpoint d.machine.regs.pc }
  else step { d with passOver := false }

def ticks : Nat → Debugger → Debugger
  | 0, d => d
  | n + 1, d => ticks n d.tick

def toggleBreakpoint (d : Debugger) : Debugger :=
  let pc := d.machine.regs.pc
  if d.breakpoints.contains pc then
    { d with
      breakpoints := d.breakpoints.filter (· != pc)
      status := .breakpointRemoved pc }
  else { d with breakpoints := pc :: d.breakpoints, status := .breakpointSet pc }

def disassembly (d : Debugger) (lines : Nat) : List Row :=
  let pc := d.machine.regs.pc.toNat
  (Row.sweep pc (d.machine.mem.toList.drop pc)).take lines

def isCurrent (d : Debugger) (row : Row) : Bool := row.address == d.machine.regs.pc.toNat

structure Line where
  address : UInt8
  text : String
  current : Bool
deriving DecidableEq

/-- The bytes that a row of the listing takes in memory. -/
def Line.bytes : Nat := 32

/-- The most bytes that may be asked for at once. -/
def largestBlock : Nat := Int64.maxValue.toInt.toNat

def line (d : Debugger) (row : Row) : Line :=
  ⟨UInt8.ofNat row.address, row.item.text, d.isCurrent row⟩

def listing (d : Debugger) (lines : Nat) : List Line := (d.disassembly lines).map d.line

/-- The listing for a caller that may ask for any number of rows. Room for all of them is asked
for first, and if that is more than a block can have, the call panics. That there is as much
memory as a block can have is taken for granted. -/
def listing? (d : Debugger) (lines : Nat) : Option (List Line) :=
  if lines * Line.bytes ≤ largestBlock then some (d.listing lines) else none

def outputText (d : Debugger) : String :=
  " ".intercalate (d.output.toList.map fun b => toString b.toNat)

end Debugger

end ByteMachine
