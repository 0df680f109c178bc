import ByteMachine.Proofs.Machine.Jumps

/-! The stack pointer along a run from power-on. Pushes and pops move it by one, around the
ends of memory, so it stays inside and is known from how many of each were executed, as long as
no instruction puts another value into its register. -/
namespace ByteMachine

namespace Instruction

/-- Whether the instruction puts a value into the register of the stack pointer, beside the
movement of a push or a pop. -/
def AssignsStackPointer (i : Instruction) : Prop :=
  i.a = Register.stackPointer.toByte ∧
    i.opcode ∈ [.ldi, .add, .sub, .mul, .div, .inc, .dec, .pop]

instance (i : Instruction) : Decidable i.AssignsStackPointer :=
  inferInstanceAs (Decidable (_ ∧ _))

def movement (i : Instruction) : Int :=
  (if i.opcode = .pop then 1 else 0) - if i.opcode = .push then 1 else 0

def drift (executed : List Instruction) : Int :=
  executed.countP (·.opcode = .pop) - executed.countP (·.opcode = .push)

theorem drift_concat (executed : List Instruction) (i : Instruction) :
    drift (executed ++ [i]) = drift executed + i.movement := by
  rw [drift, drift, movement]
  simp only [List.countP_append, List.countP_singleton, decide_eq_true_eq]
  split <;> split <;> omega

variable {i : Instruction} {regs : Registers} {mem : Memory}

theorem below_eq (inside : regs.sp.toNat < mem.size) :
    (below regs mem : Int) = (regs.sp.toNat - 1) % mem.size := by
  unfold below
  split
  · next first =>
    have last : ((0 : Nat) - 1 + mem.size : Int) % mem.size = (0 : Nat) - 1 + mem.size :=
      Int.emod_eq_of_lt (by omega) (by omega)
    rw [first, UInt8.toNat_zero, ← Int.add_emod_right, last]
    omega
  · next inner =>
    have pos : regs.sp.toNat ≠ 0 := fun zero => inner (UInt8.toNat_inj.1 zero)
    rw [Int.emod_eq_of_lt (by omega) (by omega)]
    omega

theorem above_eq (inside : regs.sp.toNat < mem.size) :
    (above regs mem : Int) = (regs.sp.toNat + 1) % mem.size := by
  unfold above
  split
  · next last =>
    have whole : (regs.sp.toNat : Int) + 1 = mem.size := by omega
    rw [whole, Int.emod_self]
    rfl
  · rw [Int.emod_eq_of_lt (by omega) (by omega)]
    rfl

theorem registerAfter_stackPointer (spared : ¬ i.AssignsStackPointer)
    (inside : regs.sp.toNat < mem.size) :
    i.registerAfter regs mem .stackPointer = (regs.sp.toNat + i.movement) % mem.size := by
  have stays : ((regs.get .stackPointer).toNat : Int) = (regs.sp.toNat + 0) % mem.size := by
    rw [Int.add_zero, Int.emod_eq_of_lt (by omega) (by omega)]
    rfl
  have other (assigned : i.opcode ∈ [.ldi, .add, .sub, .mul, .div, .inc, .dec, .pop]) :
      Register.stackPointer.val ≠ i.a.toNat := by
    intro named
    refine spared ⟨UInt8.toNat_inj.1 ?_, assigned⟩
    rw [← named]
    rfl
  obtain ⟨opcode, a, b⟩ := i
  cases opcode with
  | hlt | prn | jmp | jeq | jne | cmp => exact stays
  | ldi | add | sub | mul | div | inc | dec =>
    exact (if_neg (other (by simp))).trans stays
  | push =>
    have pushed : registerAfter ⟨.push, a, b⟩ regs mem .stackPointer = below regs mem := rfl
    rw [pushed, below_eq inside]
    rfl
  | pop =>
    exact (if_neg (other (by simp))).trans (above_eq inside)

end Instruction

namespace Machine
variable {σ : Type} [Sink σ] {m : Machine} {executed : List Instruction}

theorem sp_of_failed {out : σ} {f : Fault} (failed : (m.step out).result = .error f) :
    (m.step out).machine.regs.sp = m.regs.sp ∧ (m.step out).machine.mem.size = m.mem.size := by
  have ends := m.step_ends out
  generalize m.step out = done at ends failed ⊢
  cases ends with
  | stopped _ | outside _ _ | unknown _ _ _ | failed _ _ _ => exact ⟨rfl, rfl⟩
  | executed _ _ _ => cases failed

theorem sp_of_executed {out : σ} {i : Instruction} (succeeded : (m.step out).result = .ok i)
    (spared : ¬ i.AssignsStackPointer) (inside : m.regs.sp.toNat < m.mem.size) :
    ((m.step out).machine.regs.sp.toNat : Int) = (m.regs.sp.toNat + i.movement) % m.mem.size ∧
      (m.step out).machine.mem.size = m.mem.size := by
  have ends := m.step_ends out
  generalize m.step out = done at ends succeeded ⊢
  cases ends with
  | executed running read performed =>
    cases succeeded
    have done := commit_executed running read performed
    refine ⟨?_, done.size⟩
    rw [← Instruction.registerAfter_stackPointer spared inside]
    exact done.registers .stackPointer
  | stopped _ => cases succeeded
  | outside _ _ => cases succeeded
  | unknown _ _ _ => cases succeeded
  | failed _ _ _ => cases succeeded

theorem powerOn_sp_lt (mem : Memory) : (powerOn mem).regs.sp.toNat < mem.size := by
  by_cases small : mem.size ≤ Registers.stackTop.toNat
  · have zero : (powerOn mem).regs.sp = 0 := by
      simp only [powerOn, Registers.forMemory, if_pos small]
      rfl
    rw [zero]
    exact mem.size_pos
  · have top : (powerOn mem).regs.sp = Registers.stackTop := by
      simp only [powerOn, Registers.forMemory, if_neg small]
      rfl
    rw [top]
    exact Nat.lt_of_not_le small

/-- What a machine becomes by steps, each with a sink of its own, and the instructions that
were executed on the way. A step that fails executes none. -/
inductive Trace (m : Machine) : List Instruction → Machine → Prop
  | start : Trace m [] m
  | executed {σ : Type} [Sink σ] {done : List Instruction} {now : Machine} {i : Instruction}
    (trace : Trace m done now) (out : σ) (succeeded : (now.step out).result = .ok i) :
    Trace m (done ++ [i]) (now.step out).machine
  | failed {σ : Type} [Sink σ] {done : List Instruction} {now : Machine} {f : Fault}
    (trace : Trace m done now) (out : σ) (failed : (now.step out).result = .error f) :
    Trace m done (now.step out).machine

theorem trace_after (m : Machine) (out : σ) (n : Nat) :
    ∃ executed, m.Trace executed (m.after out n).1 := by
  induction n with
  | zero => exact ⟨[], .start⟩
  | succ n ih =>
    obtain ⟨executed, trace⟩ := ih
    rw [after_succ, proceed]
    cases step : ((m.after out n).1.step (m.after out n).2).result with
    | error f => exact ⟨executed, trace.failed _ step⟩
    | ok i => exact ⟨executed ++ [i], trace.executed _ step⟩

namespace Trace
variable {mem : Memory}

theorem sp_eq (trace : Trace (powerOn mem) executed m)
    (spared : ∀ i ∈ executed, ¬ i.AssignsStackPointer) :
    m.mem.size = mem.size ∧ m.regs.sp.toNat < mem.size ∧
      (m.regs.sp.toNat : Int) =
        ((powerOn mem).regs.sp.toNat + Instruction.drift executed) % mem.size := by
  induction trace with
  | start =>
    have inside := powerOn_sp_lt mem
    refine ⟨rfl, inside, ?_⟩
    exact (Int.emod_eq_of_lt (by omega) (by omega)).symm
  | @executed _ _ done now i _ out succeeded ih =>
    obtain ⟨size, inside, sp⟩ := ih fun j mem => spared j (List.mem_append_left _ mem)
    rw [← size] at inside
    obtain ⟨moved, kept⟩ := sp_of_executed succeeded (spared i (by simp)) inside
    rw [size, sp, Int.emod_add_emod, Int.add_assoc] at moved
    have pos : (0 : Int) < mem.size := Int.natCast_pos.2 mem.size_pos
    refine ⟨kept.trans size, ?_, ?_⟩
    · have lt := Int.emod_lt_of_pos
        ((powerOn mem).regs.sp.toNat + (Instruction.drift done + i.movement)) pos
      omega
    · rw [moved, Instruction.drift_concat]
  | failed _ _ failed ih =>
    obtain ⟨size, inside, sp⟩ := ih spared
    obtain ⟨same, kept⟩ := sp_of_failed failed
    rw [same]
    exact ⟨kept.trans size, inside, sp⟩

/-- As long as no executed instruction has assigned the stack pointer, whatever else a program
does and whatever its sinks make of it, the stack pointer is at its start less the pushes and
with the pops, around memory, and so inside. Then no instruction that can be fetched fails at the
stack, or anywhere else in memory. -/
theorem stack_safe (trace : Trace (powerOn mem) executed m)
    (spared : ∀ i ∈ executed, ¬ i.AssignsStackPointer) :
    m.mem.size = mem.size ∧ m.regs.sp.toNat < mem.size ∧
    (m.regs.sp.toNat : Int) = ((powerOn mem).regs.sp.toNat -
      executed.countP (·.opcode = .push) + executed.countP (·.opcode = .pop)) % mem.size ∧
    (m.regs.pc.toNat < mem.size → ∀ {σ : Type} [Sink σ] (out : σ) (e : MemoryError),
      (m.step out).result ≠ .error (.memory e)) := by
  obtain ⟨size, inside, sp⟩ := sp_eq trace spared
  refine ⟨size, inside, ?_, fun fetched _ _ out e failed => ?_⟩
  · rw [sp, Instruction.drift]
    congr 1
    omega
  · rw [← size] at inside fetched
    rcases memory_fault_cases failed with ⟨outside, -⟩ | ⟨-, outside, -⟩
    · exact absurd fetched (Nat.not_lt.2 outside)
    · exact absurd inside (Nat.not_lt.2 outside)

/-- Four cells with a push and a pop. The push writes over the operand of the pop. -/
def pushingAndPopping : Memory := ⟨#[0x4D, 0, 0x4C, 1], by decide⟩

def pushedTwice : Machine :=
  ⟨⟨(Vector.replicate 8 0).set 7 3, 2, 0x4D, 0⟩, ⟨#[0x4D, 0, 0x4C, 0], by decide⟩, .running, 3,
    some ⟨.push, 0, 0x4C⟩⟩

theorem stack_safe_pushedTwice :
    let executed : List Instruction := [⟨.push, 0, 0x4C⟩, ⟨.pop, 0, 0x4D⟩, ⟨.push, 0, 0x4C⟩]
    Trace (powerOn pushingAndPopping) executed pushedTwice ∧
      (∀ i ∈ executed, ¬ i.AssignsStackPointer) ∧
      (pushedTwice.regs.sp.toNat : Int) = (0 - 2 + 1) % 4 ∧
      ∀ e, (pushedTwice.step (#[] : Array UInt8)).result ≠ .error (.memory e) := by
  intro executed
  have pushed : Trace (powerOn pushingAndPopping) [⟨.push, 0, 0x4C⟩] _ :=
    .executed .start (#[] : Array UInt8) rfl
  have popped : Trace (powerOn pushingAndPopping) [⟨.push, 0, 0x4C⟩, ⟨.pop, 0, 0x4D⟩] _ :=
    pushed.executed (#[] : Array UInt8) rfl
  have trace : Trace (powerOn pushingAndPopping) executed pushedTwice :=
    popped.executed (#[] : Array UInt8) rfl
  have spared : ∀ i ∈ executed, ¬ i.AssignsStackPointer := by decide
  obtain ⟨-, -, sp, fine⟩ := trace.stack_safe spared
  exact ⟨trace, spared, sp, fine (by decide) _⟩

end Trace

end Machine

end ByteMachine
