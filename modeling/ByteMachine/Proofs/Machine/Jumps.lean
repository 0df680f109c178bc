import ByteMachine.Proofs.Machine.Faults
import ByteMachine.Proofs.Machine.Lifecycle

/-! How the program counter leaves memory. Behind an instruction it is reduced by the size of
memory, and the target of a jump is not, so it is outside only right after a jump that was
taken, with the target still in its register. Every other memory fault is one of the stack. -/
namespace ByteMachine

theorem Registers.named_of_value_pos {regs : Registers} {index : UInt8}
    (pos : 0 < (regs.value index).toNat) : index.toNat < 8 := by
  by_contra unnamed
  have zero : regs.value index = 0 := by simp [value, Nat.le_of_not_lt unnamed]
  rw [zero] at pos
  exact absurd pos (by decide)

namespace Instruction

theorem kept_of_jumps {i : Instruction} {regs : Registers} (jumps : i.jumps regs) (mem : Memory) :
    i.flagsAfter regs = regs.fl.toNat ∧
      ∀ r, i.registerAfter regs mem r = (regs.get r).toNat := by
  unfold Instruction.jumps at jumps
  split at jumps
  · next jump => simp [flagsAfter, registerAfter, jump]
  · next jump => simp [flagsAfter, registerAfter, jump]
  · next jump => simp [flagsAfter, registerAfter, jump]
  · cases jumps

theorem memory_of_perform {σ : Type} [Sink σ] {i : Instruction} {regs : Registers}
    {mem : Memory} {out written : σ} {e : MemoryError}
    (failed : i.perform regs mem out = (.error (.memory e), written)) :
    (i.opcode = .push ∨ i.opcode = .pop) ∧ mem.size ≤ regs.sp.toNat := by
  have fault : i.firstFault regs mem out = some (.memory e) := by
    rw [← error?_perform, failed]
    rfl
  have computed : i.computeFault regs mem = some (.memory e) := by
    cases first : i.computeFault regs mem with
    | some f => rwa [firstFault, first] at fault
    | none =>
      rw [firstFault, first, Option.none_or, outputFault] at fault
      split at fault
      · split at fault <;> cases fault
      · cases fault
  unfold computeFault at computed
  split at computed
  · cases computed
  split at computed
  · cases computed
  split at computed
  · cases computed
  split at computed
  · next push => exact ⟨.inl push.1, Nat.le_trans push.2.2 (Nat.sub_le _ _)⟩
  split at computed
  · next pop => exact ⟨.inr pop.1, pop.2⟩
  · cases computed

end Instruction

namespace Machine
variable {σ : Type} [Sink σ] {m : Machine}

def Jumped (m : Machine) : Prop :=
  ∃ i, m.last = some i ∧ i.jumps m.regs ∧ m.regs.read i.a = .ok m.regs.pc

theorem jumped_of_outside {after : Machine} {out written : σ} {i : Instruction}
    (done : m.Executed out i after written) (outside : after.mem.size ≤ after.regs.pc.toNat) :
    after.Jumped := by
  rw [done.size, done.pc, Instruction.pcAfter] at outside
  split at outside
  · next jumps =>
    -- The target is not zero, so it was read from a register.
    have named := Registers.named_of_value_pos (Nat.lt_of_lt_of_le m.mem.size_pos outside)
    obtain ⟨flags, registers⟩ := Instruction.kept_of_jumps jumps m.mem
    have sameFlags : after.regs.fl = m.regs.fl := UInt8.toNat_inj.1 (done.flags.trans flags)
    have target : after.regs.get ⟨i.a.toNat, named⟩ = after.regs.pc := by
      have value := (done.registers ⟨i.a.toNat, named⟩).trans (registers _)
      have read : m.regs.value i.a = m.regs.get ⟨i.a.toNat, named⟩ :=
        Registers.value_eq_get m.regs rfl
      have pc := done.pc
      rw [Instruction.pcAfter, if_pos jumps, read] at pc
      rw [← UInt8.toNat_inj, pc]
      exact Int.ofNat_inj.1 value
    refine ⟨i, done.last, ?_, Registers.read_eq_ok_iff.2 ⟨_, rfl, target⟩⟩
    simpa only [Instruction.jumps, sameFlags] using jumps
  · exact absurd outside (Nat.not_le.2 (Nat.mod_lt _ m.mem.size_pos))

theorem jumped_preserved : Preserved fun m => m.mem.size ≤ m.regs.pc.toNat → m.Jumped where
  cells same inside outside := inside (same ▸ outside)
  executed done _ := jumped_of_outside done
  faulted _ _ jumped := jumped

theorem memory_fault_cases {out : σ} {e : MemoryError}
    (failed : (m.step out).result = .error (.memory e)) :
    (m.mem.size ≤ m.regs.pc.toNat ∧ e = .addressOutOfRange m.regs.pc m.mem.size) ∨
    (m.regs.pc.toNat < m.mem.size ∧ m.mem.size ≤ m.regs.sp.toNat ∧
      (m.mem.cell m.regs.pc.toNat = Opcode.push.byte ∨
        m.mem.cell m.regs.pc.toNat = Opcode.pop.byte)) := by
  have ends := m.step_ends out
  generalize m.step out = done at ends failed
  cases ends with
  | outside _ far =>
    cases failed
    exact .inl ⟨far, rfl⟩
  | failed _ read performed =>
    cases failed
    obtain ⟨inside, byte⟩ := Memory.read_eq_ok_iff.1 read
    obtain ⟨stack, far⟩ := Instruction.memory_of_perform performed
    rw [byte]
    exact .inr ⟨inside, far, stack.imp (congrArg Opcode.byte) (congrArg Opcode.byte)⟩
  | stopped _ => cases failed
  | unknown _ _ _ => cases failed
  | executed _ _ _ => cases failed

/-- However a machine was used since power-on, its program counter is outside of memory only if
the last instruction was a jump that was taken, and its register holds the program counter. So
a step that finds nothing at its program counter follows such a jump; other memory faults are
those of a push or a pop. In the full memory there are none. -/
theorem Reachable.pc_outside {build : Build} {mem : Memory} (reachable : Reachable build mem m) :
    (mem.size ≤ m.regs.pc.toNat → m.Jumped) ∧
    (∀ {σ : Type} [Sink σ] (out : σ) (e : MemoryError),
      (m.step out).result = .error (.memory e) →
        (mem.size ≤ m.regs.pc.toNat ∧ e = .addressOutOfRange m.regs.pc mem.size ∧ m.Jumped) ∨
        (m.regs.pc.toNat < mem.size ∧ mem.size ≤ m.regs.sp.toNat ∧
          (m.mem.cell m.regs.pc.toNat = Opcode.push.byte ∨
            m.mem.cell m.regs.pc.toNat = Opcode.pop.byte))) ∧
    (mem.size = 256 → ∀ {σ : Type} [Sink σ] (out : σ) (e : MemoryError),
      (m.step out).result ≠ .error (.memory e)) := by
  have start : ∀ mem, (Machine.powerOn mem).mem.size ≤ (Machine.powerOn mem).regs.pc.toNat →
      (Machine.powerOn mem).Jumped := by
    intro mem outside
    rw [(regs_powerOn mem).1] at outside
    exact absurd outside (Nat.not_le.2 mem.size_pos)
  have jumped := reachable.invariant start jumped_preserved
  rw [← reachable.size]
  refine ⟨jumped, fun out e failed => ?_, fun full _ _ out e failed => ?_⟩
  · rcases memory_fault_cases failed with ⟨outside, address⟩ | stack
    · exact .inl ⟨outside, address, jumped outside⟩
    · exact .inr stack
  · -- Both faults have to do with an address of 256 or more, and registers hold bytes.
    have counter := m.regs.pc.toNat_lt
    have pointer := m.regs.sp.toNat_lt
    rcases memory_fault_cases failed with fetch | stack <;> omega

def strayed : Machine :=
  ⟨⟨#v[200, 0, 0, 0, 0, 0, 0, 0], 200, 0x52, 0⟩,
    ⟨#[0x99, 0, 200, 0x52, 0, 0, 0, 0], by decide⟩, .running, 2, some ⟨.jne, 0, 0⟩⟩

theorem Reachable.pc_outside_strayed :
    Reachable .checked (.zeros 8 (by decide)) strayed ∧ strayed.Jumped ∧
    (strayed.step (#[] : Array UInt8)).result = .error (.memory (.addressOutOfRange 200 8)) ∧
    ∀ e, (fresh.step (#[] : Array UInt8)).result ≠ .error (.memory e) := by
  have ran : (⟨.forMemory 8, strayed.mem, .running, 0, none⟩ : Machine).runLimitedIn .checked 2
      (#[] : Array UInt8) = some ⟨.ok 2, strayed, #[]⟩ := by
    rw [runLimitedIn_eq, if_neg fun panics => absurd panics.2 (by decide), runLimited_eq]
    rfl
  have reachable : Reachable .checked (.zeros 8 (by decide)) strayed :=
    .use (.use .powerOn (.load _ [0x99, 0, 200, 0x52, 0])) (.runLimited ran)
  have full : Reachable .wrapping .full fresh := .powerOn
  have size : Memory.full.size = 256 := by simp [Memory.full, Memory.zeros, Memory.size,
    Memory.fullSize]
  exact ⟨reachable, reachable.pc_outside.1 (by decide), rfl, full.pc_outside.2.2 size _⟩

end Machine

end ByteMachine
