import ByteMachine.Proofs.Machine.Build
import ByteMachine.Proofs.Machine.Step
import ByteMachine.Proofs.Registers

/-! The meaning of the instructions in plain arithmetic, and that a step which
succeeds does what the instruction at the program counter means, no more and no less. -/
namespace ByteMachine

namespace Instruction

def below (regs : Registers) (mem : Memory) : Nat :=
  if regs.sp = 0 then mem.size - 1 else regs.sp.toNat - 1

def above (regs : Registers) (mem : Memory) : Nat :=
  if regs.sp.toNat + 1 = mem.size then 0 else regs.sp.toNat + 1

variable (i : Instruction) (regs : Registers) (mem : Memory)

def jumps : Bool :=
  match i.opcode with
  | .jmp => true
  | .jeq => regs.fl.toNat.testBit 0
  | .jne => !regs.fl.toNat.testBit 0
  | _ => false

def registerAfter (r : Register) : Int :=
  let a : Int := (regs.value i.a).toNat
  let b : Int := (regs.value i.b).toNat
  let old : Int := (regs.get r).toNat
  let assigned (value : Int) : Int := if r.val = i.a.toNat then value else old
  match i.opcode with
  | .add => assigned ((a + b) % 256)
  | .sub => assigned ((a - b) % 256)
  | .mul => assigned (a * b % 256)
  | .div => assigned (a / b)
  | .inc => assigned ((a + 1) % 256)
  | .dec => assigned ((a - 1) % 256)
  | .ldi => assigned i.b.toNat
  | .push => if r = .stackPointer then below regs mem else old
  | .pop =>
    if r.val = i.a.toNat then (mem.cell regs.sp.toNat).toNat
    else if r = .stackPointer then above regs mem
    else old
  | .hlt | .prn | .jmp | .jeq | .jne | .cmp => old

/-- The flags after the instruction. A comparison sets one of the low three bits
and clears the other two. -/
def flagsAfter : Nat :=
  let a := (regs.value i.a).toNat
  let b := (regs.value i.b).toNat
  match i.opcode with
  | .cmp => regs.fl.toNat / 8 * 8 + if a = b then 1 else if b < a then 2 else 4
  | _ => regs.fl.toNat

def cellAfter (address : Nat) : UInt8 :=
  if i.opcode = .push ∧ address = below regs mem then regs.value i.a else mem.cell address

/-- The program counter after the instruction; a jump's target is not reduced. -/
def pcAfter : Nat :=
  if i.jumps regs then (regs.value i.a).toNat
  else (regs.pc.toNat + 1 + i.opcode.operands) % mem.size

end Instruction

/-- That a machine and its sink became what they are by the instruction at the program counter. -/
structure Machine.Executed {σ : Type} [Sink σ] (m : Machine) (out : σ) (i : Instruction)
    (after : Machine) (written : σ) : Prop where
  inside : m.regs.pc.toNat < m.mem.size
  opcode : i.opcode.byte = m.mem.cell m.regs.pc.toNat
  a : i.a = m.mem.cell ((m.regs.pc.toNat + 1) % m.mem.size)
  b : i.b = m.mem.cell ((m.regs.pc.toNat + 2) % m.mem.size)
  cycles : after.cycles = m.cycles + 1
  last : after.last = some i
  ir : after.regs.ir = i.opcode.byte
  pc : after.regs.pc.toNat = i.pcAfter m.regs m.mem
  registers : ∀ r, (after.regs.get r).toNat = i.registerAfter m.regs m.mem r
  flags : after.regs.fl.toNat = i.flagsAfter m.regs
  size : after.mem.size = m.mem.size
  cells : ∀ address, after.mem.cell address = i.cellAfter m.regs m.mem address
  state : after.state = if i.opcode = .hlt then .halted else .running
  output : if i.opcode = .prn then Sink.write out (m.regs.value i.a) = (.ok (), written)
    else written = out

structure Effect.Means (done : Effect) (i : Instruction) (regs : Registers) (mem : Memory) :
    Prop where
  pc : done.regs.pc = regs.pc
  ir : done.regs.ir = regs.ir
  registers : ∀ r, (done.regs.get r).toNat = i.registerAfter regs mem r
  flags : done.regs.fl.toNat = i.flagsAfter regs
  size : done.mem.size = mem.size
  cells : ∀ address, done.mem.cell address = i.cellAfter regs mem address
  flow : done.flow =
    if i.jumps regs then .jump (regs.value i.a) else if i.opcode = .hlt then .halt else .next
  printed : done.printed = if i.opcode = .prn then some (regs.value i.a) else none

namespace Instruction
variable {regs : Registers} {mem : Memory}

theorem toNat_prev_sp (regs : Registers) (mem : Memory) :
    (mem.prev regs.sp).toNat = below regs mem := by
  have pos := mem.size_pos
  have le := mem.size_le
  unfold Memory.prev below
  split
  · simp only [UInt8.toNat_ofNat']
    omega
  · next inner =>
    have one : (1 : UInt8) ≤ regs.sp := by
      rw [UInt8.le_iff_toNat_le, UInt8.toNat_one]
      exact Nat.one_le_iff_ne_zero.2 fun zero => inner (UInt8.toNat_inj.1 zero)
    rw [UInt8.toNat_sub_of_le _ _ one, UInt8.toNat_one]

theorem toNat_next_sp (inside : regs.sp.toNat < mem.size) :
    (mem.next regs.sp).toNat = above regs mem := by
  rw [mem.next_toNat inside, above]
  split
  · next last => rw [last, Nat.mod_self]
  · exact Nat.mod_eq_of_lt (by omega)

theorem means_of_compute {opcode : Opcode} {a b : UInt8} {op : Operation} {second : Operand}
    {done : Effect} {n : Int} (h : compute op a second regs mem = .ok done) (valued : op ≠ .cmp)
    (plain : opcode ∈ [.add, .sub, .mul, .div, .inc, .dec])
    (assigned : ∀ r, registerAfter ⟨opcode, a, b⟩ regs mem r =
      if r.val = a.toNat then n else (regs.get r).toNat)
    (number : ∀ y v, second.read regs = .ok y →
      op.compute (regs.value a) y = .ok (.value v) → n = v.toNat) :
    done.Means ⟨opcode, a, b⟩ regs mem := by
  simp only [compute, Except.bind_eq_ok_iff, Except.mapError_eq_ok_iff,
    Except.pure_eq_ok_iff] at h
  obtain ⟨after, h, rfl⟩ := h
  obtain ⟨r, named, y, source, result, computed, rfl⟩ := Registers.apply_eq_ok h
  cases result with
  | order o => exact absurd (Registers.eq_cmp_of_order computed) valued
  | value v =>
    rw [← Registers.value_eq_get regs named] at computed
    have registers (s : Register) : ((regs.set r v).get s).toNat =
        registerAfter ⟨opcode, a, b⟩ regs mem s := by
      simp only [assigned, number y v source computed, Registers.get_set, ← named, Fin.val_inj]
      split <;> rfl
    simp only [List.mem_cons, List.not_mem_nil, or_false] at plain
    rcases plain with rfl | rfl | rfl | rfl | rfl | rfl <;>
      exact ⟨rfl, rfl, registers, rfl, rfl, fun _ => rfl, rfl, rfl⟩

theorem means_of_unchanged {opcode : Opcode} {a b : UInt8} {flow : Flow}
    {printed : Option UInt8} (plain : opcode ∈ [.hlt, .prn, .jmp, .jeq, .jne])
    (follows : flow = if jumps ⟨opcode, a, b⟩ regs then .jump (regs.value a)
      else if opcode = .hlt then .halt else .next)
    (prints : printed = if opcode = .prn then some (regs.value a) else none) :
    Effect.Means { regs, mem, flow, printed } ⟨opcode, a, b⟩ regs mem := by
  simp only [List.mem_cons, List.not_mem_nil, or_false] at plain
  rcases plain with rfl | rfl | rfl | rfl | rfl <;>
    exact ⟨rfl, rfl, fun _ => rfl, rfl, rfl, fun _ => rfl, follows, prints⟩

theorem register_eq_ok_iff {index : UInt8} {r : Register} :
    register index = .ok r ↔ r.val = index.toNat := by
  rw [register, Except.mapError_eq_ok_iff, Registers.ofByte_eq_ok_iff]

theorem means_of_effect {i : Instruction} {done : Effect} (h : i.effect regs mem = .ok done) :
    done.Means i regs mem := by
  obtain ⟨opcode, a, b⟩ := i
  cases opcode with
  | add =>
    refine means_of_compute h (by decide) (by decide) (fun _ => rfl) fun y v source computed => ?_
    cases Registers.eq_value_of_read source
    cases computed
    simp only [UInt8.toNat_add]
    omega
  | sub =>
    refine means_of_compute h (by decide) (by decide) (fun _ => rfl) fun y v source computed => ?_
    cases Registers.eq_value_of_read source
    cases computed
    have := (regs.value b).toNat_lt
    simp only [UInt8.toNat_sub]
    omega
  | mul =>
    refine means_of_compute h (by decide) (by decide) (fun _ => rfl) fun y v source computed => ?_
    cases Registers.eq_value_of_read source
    cases computed
    simp only [UInt8.toNat_mul, Nat.reducePow, Int.natCast_emod, Int.natCast_mul]
    rfl
  | div =>
    refine means_of_compute h (by decide) (by decide) (fun _ => rfl) fun y v source computed => ?_
    cases Registers.eq_value_of_read source
    simp only [Operation.compute] at computed
    split at computed
    · cases computed
    · cases computed
      rw [UInt8.toNat_div]
      rfl
  | inc =>
    refine means_of_compute h (by decide) (by decide) (fun _ => rfl) fun y v source computed => ?_
    cases computed
    simp only [UInt8.toNat_add, UInt8.toNat_one]
    omega
  | dec =>
    refine means_of_compute h (by decide) (by decide) (fun _ => rfl) fun y v source computed => ?_
    cases computed
    simp only [UInt8.toNat_sub, UInt8.toNat_one]
    omega
  | hlt =>
    cases h
    exact means_of_unchanged (by decide) rfl rfl
  | prn =>
    simp only [effect, Except.bind_eq_ok_iff, Except.pure_eq_ok_iff, register_eq_ok_iff] at h
    obtain ⟨r, named, rfl⟩ := h
    exact means_of_unchanged (by decide) rfl (by simp [Registers.value_eq_get regs named])
  | jmp =>
    simp only [effect, Except.bind_eq_ok_iff, Except.pure_eq_ok_iff, register_eq_ok_iff] at h
    obtain ⟨r, named, rfl⟩ := h
    exact means_of_unchanged (by decide) (by simp [jumps, Registers.value_eq_get regs named]) rfl
  | jeq =>
    simp only [effect, Except.bind_eq_ok_iff, Except.pure_eq_ok_iff, register_eq_ok_iff] at h
    obtain ⟨r, named, rfl⟩ := h
    refine means_of_unchanged (by decide) ?_ rfl
    simp [jumps, Registers.value_eq_get regs named, Registers.equal_eq_testBit]
  | jne =>
    simp only [effect, Except.bind_eq_ok_iff, Except.pure_eq_ok_iff, register_eq_ok_iff] at h
    obtain ⟨r, named, rfl⟩ := h
    refine means_of_unchanged (by decide) ?_ rfl
    simp only [jumps, Registers.value_eq_get regs named, Registers.equal_eq_testBit]
    cases regs.fl.toNat.testBit 0 <;> rfl
  | ldi =>
    simp only [effect, Except.bind_eq_ok_iff, Except.pure_eq_ok_iff, register_eq_ok_iff] at h
    obtain ⟨r, named, rfl⟩ := h
    refine ⟨rfl, rfl, fun s => ?_, rfl, rfl, fun _ => rfl, rfl, rfl⟩
    simp only [registerAfter, Registers.get_set, ← named, Fin.val_inj]
    split <;> rfl
  | cmp =>
    simp only [effect, compute, Except.bind_eq_ok_iff, Except.mapError_eq_ok_iff,
      Except.pure_eq_ok_iff] at h
    obtain ⟨after, h, rfl⟩ := h
    obtain ⟨r, named, y, source, result, computed, rfl⟩ := Registers.apply_eq_ok h
    cases Registers.eq_value_of_read source
    cases computed
    refine ⟨rfl, rfl, fun _ => rfl, ?_, rfl, fun _ => rfl, rfl, rfl⟩
    simp only [flagsAfter, Registers.fl_setCompare, Registers.toNat_flagOf_compare,
      Registers.value_eq_get regs named]
  | push =>
    simp only [effect, push, Except.bind_eq_ok_iff, Except.mapError_eq_ok_iff,
      Except.pure_eq_ok_iff, register_eq_ok_iff] at h
    obtain ⟨r, named, after, stored, rfl⟩ := h
    refine ⟨rfl, rfl, fun s => ?_, rfl, Memory.size_write stored, fun k => ?_, rfl, rfl⟩
    · simp only [registerAfter, Registers.setSp, Registers.get_set, ← toNat_prev_sp]
      split <;> rfl
    · simp only [cellAfter, Memory.cell_write stored, toNat_prev_sp, true_and,
        Registers.value_eq_get regs named]
  | pop =>
    simp only [effect, pop, Except.bind_eq_ok_iff, Except.mapError_eq_ok_iff,
      Except.pure_eq_ok_iff, register_eq_ok_iff] at h
    obtain ⟨r, named, value, read, rfl⟩ := h
    obtain ⟨inside, rfl⟩ := Memory.read_eq_ok_iff.1 read
    refine ⟨rfl, rfl, fun s => ?_, rfl, rfl, fun _ => rfl, rfl, rfl⟩
    simp only [registerAfter, Registers.setSp, Registers.get_set, ← named, Fin.val_inj,
      ← toNat_next_sp inside]
    split
    · rfl
    · split <;> rfl

theorem flow_eq_halt_iff {i : Instruction} {done : Effect} (means : done.Means i regs mem) :
    done.flow = .halt ↔ i.opcode = .hlt := by
  rw [means.flow]
  by_cases halts : i.opcode = .hlt
  · simp [jumps, halts]
  · split <;> simp [halts]

end Instruction

namespace Machine
variable {σ : Type} [Sink σ]

theorem toNat_pcAfter {regs : Registers} {opcode : Opcode} (fetched : regs.ir = opcode.byte)
    (mem : Memory) :
    (pcAfter regs mem).toNat = (regs.pc.toNat + 1 + opcode.operands) % mem.size := by
  rw [pcAfter, Memory.wrap_add_toNat, fetched, Opcode.operands, Nat.add_assoc, Nat.add_comm 1]

theorem commit_executed {m : Machine} {out written : σ} {opcode : Opcode} {done : Effect}
    (running : m.state = .running)
    (read : m.mem.read m.regs.pc = .ok opcode.byte)
    (performed : (m.instructionAt opcode).perform (m.fetched opcode.byte).regs m.mem out =
      (.ok done, written)) :
    m.Executed out (m.instructionAt opcode) (m.commit (m.instructionAt opcode) done) written := by
  obtain ⟨effect, output⟩ := Instruction.perform_eq_ok performed
  obtain ⟨inside, byte⟩ := Memory.read_eq_ok_iff.1 read
  have means := Instruction.means_of_effect effect
  refine {
    inside, a := rfl, b := rfl, cycles := rfl, last := rfl
    opcode := byte.symm
    ir := means.ir
    pc := ?_
    registers := means.registers
    flags := means.flags
    size := means.size
    cells := means.cells
    state := ?_
    output := ?_ }
  · have behind : (pcAfter done.regs done.mem).toNat =
        (m.regs.pc.toNat + 1 + opcode.operands) % m.mem.size := by
      rw [toNat_pcAfter means.ir, means.pc, means.size]
      rfl
    have flow : done.flow = if (m.instructionAt opcode).jumps m.regs then
        .jump (m.regs.value (m.instructionAt opcode).a)
      else if opcode = .hlt then .halt else .next := means.flow
    cases jumps : (m.instructionAt opcode).jumps m.regs with
    | true => simp [commit, flow, Instruction.pcAfter, jumps]
    | false =>
      simp only [commit, flow, Instruction.pcAfter, jumps, Bool.false_eq_true, if_false]
      by_cases halts : opcode = .hlt
      · rw [if_pos halts]
        exact behind
      · rw [if_neg halts]
        exact behind
  · simp only [commit, running, Instruction.flow_eq_halt_iff means]
  · have printed : done.printed = if (m.instructionAt opcode).opcode = .prn then
        some (m.regs.value (m.instructionAt opcode).a) else none := means.printed
    rw [printed] at output
    split
    · next printing => simpa [printing] using output
    · next silent => simpa [silent] using output

theorem executed_of_step {m after : Machine} {out written : σ} {i : Instruction}
    (succeeded : m.step out = ⟨.ok i, after, written⟩) : m.Executed out i after written := by
  by_cases running : m.state = .running
  · rw [step_of_running running] at succeeded
    cases read : m.mem.read m.regs.pc with
    | error e => simp [read] at succeeded
    | ok byte =>
      simp only [read] at succeeded
      cases known : Opcode.ofByte? byte with
      | none => simp [known] at succeeded
      | some opcode =>
        simp only [known] at succeeded
        cases Opcode.ofByte?_eq_some_iff.1 known
        rcases performed : (m.instructionAt opcode).perform (m.fetched opcode.byte).regs m.mem out
          with ⟨f | done, written⟩
        · simp [performed] at succeeded
        · rw [performed] at succeeded
          cases succeeded
          exact commit_executed running read performed
  · simp [step_of_stopped running] at succeeded

/-- A step that succeeds, in whatever build, executes the instruction at the program counter. The
count is one more than before, as a word and, unless the build lets it wrap around after the last
count of all, as a number. -/
theorem step_executed {build : Build} {m after : Machine} {out written : σ} {i : Instruction}
    (succeeded : m.stepIn build out = some ⟨.ok i, after, written⟩) :
    m.Executed out i after written ∧
      (build = .checked ∨ m.cycles.toNat + 1 < 2 ^ 64 →
        after.cycles.toNat = m.cycles.toNat + 1) := by
  have executed := executed_of_step (step_of_stepIn succeeded)
  refine ⟨executed, fun small => ?_⟩
  have fits : m.cycles.toNat + 1 < 2 ^ 64 := by
    rcases small with rfl | small
    · exact count_lt_of_stepIn succeeded
    · exact small
  rw [executed.cycles, UInt64.toNat_add, UInt64.toNat_one, Nat.mod_eq_of_lt fits]

/-- Four cells with a pop into the stack pointer at the last, whose operand is the first. -/
def straddlingPop : Machine :=
  ⟨⟨#v[0, 0, 0, 0, 0, 0, 0, 3], 3, 0, 0⟩, ⟨#[7, 9, 0, 0x4C], by decide⟩, .running, 0, none⟩

theorem step_executed_straddlingPop :
    let after := { straddlingPop with
      regs := ⟨#v[0, 0, 0, 0, 0, 0, 0, 0x4C], 1, 0x4C, 0⟩
      cycles := 1
      last := some ⟨.pop, 7, 9⟩ }
    straddlingPop.stepIn .checked (#[] : Array UInt8) = some ⟨.ok ⟨.pop, 7, 9⟩, after, #[]⟩ ∧
      straddlingPop.Executed (#[] : Array UInt8) ⟨.pop, 7, 9⟩ after #[] ∧
      after.cycles.toNat = straddlingPop.cycles.toNat + 1 := by
  intro after
  have done : straddlingPop.stepIn .checked (#[] : Array UInt8) =
      some ⟨.ok ⟨.pop, 7, 9⟩, after, #[]⟩ := rfl
  obtain ⟨executed, counted⟩ := step_executed done
  exact ⟨done, executed, counted (.inl rfl)⟩

end Machine

end ByteMachine
