import ByteMachine.Action

/-! The machine: registers, memory and the fetch, decode, execute cycle. It has
no clock; a caller steps it, or runs it for a budget of instructions. -/
namespace ByteMachine

structure Machine where
  regs : Registers
  mem : Memory
  state : RunState
  /-- The count of instructions, in a word. -/
  cycles : UInt64
  last : Option Instruction
deriving DecidableEq

structure Outcome (σ α : Type) where
  result : Except Fault α
  machine : Machine
  out : σ

/-- The outcome of a run that began at a count of `start`: how many instructions it executed. -/
def Outcome.counted {σ : Type} (start : UInt64) (finish : Outcome σ Unit) : Outcome σ UInt64 :=
  { finish with result := finish.result.map fun _ => finish.machine.cycles - start }

namespace Machine

def powerOn (mem : Memory) : Machine := ⟨.forMemory mem.size, mem, .running, 0, none⟩

def fresh : Machine := powerOn .full

instance : Inhabited Machine := ⟨fresh⟩

def isRunning (m : Machine) : Bool := m.state = .running

def reset (m : Machine) : Machine := powerOn m.mem.clear

def load (m : Machine) (program : List UInt8) : Except MemoryError Unit × Machine :=
  let (result, mem) := m.mem.load 0 program
  (result, { m with mem })

theorem load_eq_ok_iff {m after : Machine} {program : List UInt8} :
    m.load program = (.ok (), after) ↔
      ∃ mem, m.mem.load 0 program = (.ok (), mem) ∧ { m with mem } = after := by
  rcases loaded : m.mem.load 0 program with ⟨result, mem⟩
  simp [load, loaded, and_assoc]

theorem load_isOk_iff (m : Machine) (program : List UInt8) :
    (∃ after, m.load program = (.ok (), after)) ↔ program.length ≤ m.mem.size := by
  rw [← Nat.zero_add program.length, ← Memory.load_isOk_iff]
  simp only [load_eq_ok_iff]
  exact ⟨fun ⟨_, mem, loaded, _⟩ => ⟨mem, loaded⟩, fun ⟨mem, loaded⟩ => ⟨_, mem, loaded, rfl⟩⟩

/-- The instruction whose opcode byte was read at the program counter. Both bytes
after it are read, around the end of memory if need be. -/
def decode (m : Machine) (byte : UInt8) : Except Fault Instruction :=
  match Opcode.ofByte? byte with
  | none => .error (.invalidOpcode byte m.regs.pc)
  | some opcode => do
    let a ← (m.mem.read (m.mem.wrap (m.regs.pc.toNat + 1))).mapError .memory
    let b ← (m.mem.read (m.mem.wrap (m.regs.pc.toNat + 2))).mapError .memory
    return ⟨opcode, a, b⟩

def pcAfter (regs : Registers) (mem : Memory) : UInt8 :=
  mem.wrap (regs.pc + UInt8.ofNat (operandCount regs.ir + 1)).toNat

def fault (m : Machine) : Machine := { m with state := .faulted }

def fetched (m : Machine) (byte : UInt8) : Machine := { m with regs := { m.regs with ir := byte } }

def withCore {σ : Type} (m : Machine) (core : Core σ) : Machine :=
  { m with regs := core.regs, mem := core.mem }

def advancePc (m : Machine) : Machine :=
  { m with regs := { m.regs with pc := pcAfter m.regs m.mem } }

def follow (m : Machine) : Flow → Machine
  | .next => m.advancePc
  | .jump target => { m with regs := { m.regs with pc := target } }
  | .halt => { m.advancePc with state := .halted }

variable {σ : Type} [Sink σ]

/-- Fetches, decodes and carries out the instruction at the program counter. What
was changed before a fault stays changed. -/
def execute (m : Machine) (out : σ) : Outcome σ Instruction :=
  match m.mem.read m.regs.pc with
  | .error e => ⟨.error (.memory e), m, out⟩
  | .ok byte =>
    let m := m.fetched byte
    match m.decode byte with
    | .error f => ⟨.error f, m, out⟩
    | .ok i =>
      match i.run ⟨m.regs, m.mem, out⟩ with
      | (.error f, core) => ⟨.error f, m.withCore core, core.out⟩
      | (.ok flow, core) => ⟨.ok i, (m.withCore core).follow flow, core.out⟩

def step (m : Machine) (out : σ) : Outcome σ Instruction :=
  if m.state ≠ .running then ⟨.error (.notRunning m.state), m, out⟩
  else match m.execute out with
    | ⟨.ok i, m, out⟩ => ⟨.ok i, { m with cycles := m.cycles + 1, last := some i }, out⟩
    | ⟨.error f, m, out⟩ => ⟨.error f, m.fault, out⟩

theorem step_of_stopped {m : Machine} (h : m.state ≠ .running) (out : σ) :
    m.step out = ⟨.error (.notRunning m.state), m, out⟩ := by
  simp [step, h]

/-- Steps until the machine stops, a step fails or the budget is used up. -/
def advance : Nat → Machine → σ → Outcome σ Unit
  | 0, m, out => ⟨.ok (), m, out⟩
  | budget + 1, m, out =>
    if m.state = .running then
      match m.step out with
      | ⟨.ok _, m, out⟩ => advance budget m out
      | ⟨.error f, m, out⟩ => ⟨.error f, m, out⟩
    else ⟨.ok (), m, out⟩

theorem advance_of_stopped {m : Machine} (h : m.state ≠ .running) (budget : Nat) (out : σ) :
    advance budget m out = ⟨.ok (), m, out⟩ := by
  cases budget <;> simp [advance, h]

theorem cycles_execute (m : Machine) (out : σ) : (m.execute out).machine.cycles = m.cycles := by
  unfold execute
  split
  · rfl
  · simp only
    split
    · rfl
    · split
      · rfl
      · next flow _ _ => cases flow <;> rfl

theorem cycles_step_ok {m after : Machine} {out written : σ} {i : Instruction}
    (succeeded : m.step out = ⟨.ok i, after, written⟩) : after.cycles = m.cycles + 1 := by
  have same := cycles_execute m out
  unfold step at succeeded
  split at succeeded
  · cases succeeded
  · rcases executed : m.execute out with ⟨f | j, now, _⟩
    · rw [executed] at succeeded
      cases succeeded
    · rw [executed] at succeeded same
      cases succeeded
      exact congrArg (· + 1) same

theorem toNat_add_one {count limit : UInt64} (below : count < limit) :
    (count + 1).toNat = count.toNat + 1 := by
  have less := UInt64.lt_iff_toNat_lt.1 below
  have bound := limit.toNat_lt
  rw [UInt64.toNat_add, UInt64.toNat_one]
  exact Nat.mod_eq_of_lt (by omega)

/-- Steps until the machine stops, a step fails or the count is at the limit. -/
def advanceTo (limit : UInt64) (m : Machine) (out : σ) : Outcome σ Unit :=
  if _ready : m.state = .running ∧ m.cycles < limit then
    match _succeeded : m.step out with
    | ⟨.ok _, m, out⟩ => advanceTo limit m out
    | ⟨.error f, m, out⟩ => ⟨.error f, m, out⟩
  else ⟨.ok (), m, out⟩
termination_by limit.toNat - m.cycles.toNat
decreasing_by
  have less := UInt64.lt_iff_toNat_lt.1 _ready.2
  rw [cycles_step_ok _succeeded, toNat_add_one _ready.2]
  omega

def runLimited (budget : UInt64) (m : Machine) (out : σ) : Outcome σ UInt64 :=
  (advanceTo (m.cycles + budget) m out).counted m.cycles

/-- Steps until the machine stops or a step fails. There is no outcome if neither ever happens. -/
def finish? (m : Machine) (out : σ) : Option (Outcome σ Unit) :=
  if m.state = .running then
    match m.step out with
    | ⟨.ok _, m, out⟩ => m |>.finish? out
    | ⟨.error f, m, out⟩ => some ⟨.error f, m, out⟩
  else some ⟨.ok (), m, out⟩
partial_fixpoint

def run? (m : Machine) (out : σ) : Option (Outcome σ UInt64) :=
  (m.finish? out).map (Outcome.counted m.cycles)

/-- A run that is to end. What it would come to if it does not is of no account. -/
def run (m : Machine) (out : σ) : Outcome σ UInt64 := (m.run? out).getD ⟨.ok 0, m, out⟩

def describe (m : Machine) : String :=
  s!"Cpu \x7b state: {m.state.name}, cycles: {m.cycles}, " ++
    s!"regs: {m.regs.describe}, mem: {m.mem.describe} \x7d"

end Machine

end ByteMachine
