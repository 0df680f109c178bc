import ByteMachine.Machine
import ByteMachine.Proofs.Machine.Action

/-! One step as a whole. Fetching the operands never fails, since their addresses are
wrapped, and a fault leaves a machine that differs from the one before it in its
state and in the opcode byte that was fetched. -/
namespace ByteMachine.Machine

def instructionAt (m : Machine) (opcode : Opcode) : Instruction :=
  ⟨opcode, m.mem.cell ((m.regs.pc.toNat + 1) % m.mem.size),
    m.mem.cell ((m.regs.pc.toNat + 2) % m.mem.size)⟩

theorem decode_eq (m : Machine) (byte : UInt8) :
    m.decode byte =
      match Opcode.ofByte? byte with
      | none => .error (.invalidOpcode byte m.regs.pc)
      | some opcode => .ok (m.instructionAt opcode) := by
  unfold decode
  cases Opcode.ofByte? byte with
  | none => rfl
  | some opcode =>
    simp only [Memory.read_wrap, instructionAt]
    rfl

def commit (m : Machine) (i : Instruction) (done : Effect) : Machine where
  regs := { done.regs with
    pc := match done.flow with
      | .jump target => target
      | .next | .halt => pcAfter done.regs done.mem }
  mem := done.mem
  state := if done.flow = .halt then .halted else m.state
  cycles := m.cycles + 1
  last := some i

variable {σ : Type} [Sink σ]

theorem step_of_running {m : Machine} (running : m.state = .running) (out : σ) :
    m.step out =
      match m.mem.read m.regs.pc with
      | .error e => ⟨.error (.memory e), m.fault, out⟩
      | .ok byte =>
        match Opcode.ofByte? byte with
        | none => ⟨.error (.invalidOpcode byte m.regs.pc), (m.fetched byte).fault, out⟩
        | some opcode =>
          let i := m.instructionAt opcode
          match i.perform (m.fetched byte).regs m.mem out with
          | (.error f, out) => ⟨.error f, (m.fetched byte).fault, out⟩
          | (.ok done, out) => ⟨.ok i, m.commit i done, out⟩ := by
  simp only [step, running, ne_eq, not_true_eq_false, if_false, execute]
  cases m.mem.read m.regs.pc with
  | error e => rfl
  | ok byte =>
    simp only [decode_eq]
    cases Opcode.ofByte? byte with
    | none => rfl
    | some opcode =>
      have same : (m.fetched byte).instructionAt opcode = m.instructionAt opcode := rfl
      have memory : (m.fetched byte).mem = m.mem := rfl
      simp only [Instruction.run_eq_perform, same, memory]
      rcases (m.instructionAt opcode).perform (m.fetched byte).regs m.mem out with
        ⟨f | ⟨regs, mem, flow, printed⟩, out⟩
      · rfl
      · cases flow <;> simp [commit, follow, advancePc, withCore, fetched, running]

inductive Ends (m : Machine) (out : σ) : Outcome σ Instruction → Prop
  | stopped (state : m.state ≠ .running) : Ends m out ⟨.error (.notRunning m.state), m, out⟩
  | outside (running : m.state = .running) (far : m.mem.size ≤ m.regs.pc.toNat) :
    Ends m out ⟨.error (.memory (.addressOutOfRange m.regs.pc m.mem.size)), m.fault, out⟩
  | unknown {byte : UInt8} (running : m.state = .running)
    (read : m.mem.read m.regs.pc = .ok byte) (unknown : Opcode.ofByte? byte = none) :
    Ends m out ⟨.error (.invalidOpcode byte m.regs.pc), (m.fetched byte).fault, out⟩
  | failed {opcode : Opcode} {f : Fault} {written : σ} (running : m.state = .running)
    (read : m.mem.read m.regs.pc = .ok opcode.byte)
    (performed : (m.instructionAt opcode).perform (m.fetched opcode.byte).regs m.mem out =
      (.error f, written)) :
    Ends m out ⟨.error f, (m.fetched opcode.byte).fault, written⟩
  | executed {opcode : Opcode} {done : Effect} {written : σ} (running : m.state = .running)
    (read : m.mem.read m.regs.pc = .ok opcode.byte)
    (performed : (m.instructionAt opcode).perform (m.fetched opcode.byte).regs m.mem out =
      (.ok done, written)) :
    Ends m out ⟨.ok (m.instructionAt opcode), m.commit (m.instructionAt opcode) done, written⟩

theorem step_ends (m : Machine) (out : σ) : m.Ends out (m.step out) := by
  by_cases running : m.state = .running
  · rw [step_of_running running]
    by_cases inside : m.regs.pc.toNat < m.mem.size
    · have read := Memory.read_of_lt inside
      simp only [read]
      cases known : Opcode.ofByte? (m.mem.cell m.regs.pc.toNat) with
      | none => exact .unknown running read known
      | some opcode =>
        rw [← Opcode.ofByte?_eq_some_iff.1 known] at read ⊢
        simp only
        rcases performed : (m.instructionAt opcode).perform (m.fetched opcode.byte).regs m.mem out
          with ⟨f | done, written⟩
        · exact .failed running read performed
        · exact .executed running read performed
    · rw [Memory.read_of_not_lt inside]
      exact .outside running (Nat.le_of_not_lt inside)
  · rw [step_of_stopped running]
    exact .stopped running

theorem step_eq_ok {m after : Machine} {out written : σ} {i : Instruction}
    (succeeded : m.step out = ⟨.ok i, after, written⟩) :
    m.mem.read m.regs.pc = .ok i.opcode.byte ∧ i = m.instructionAt i.opcode ∧
    ∃ done, i.perform (m.fetched i.opcode.byte).regs m.mem out = (.ok done, written) ∧
      after = m.commit i done := by
  have ends := m.step_ends out
  rw [succeeded] at ends
  cases ends with
  | executed _ read performed => exact ⟨read, rfl, _, performed, rfl⟩

theorem counted_of_step_error {m after : Machine} {out written : σ} {f : Fault}
    (failed : m.step out = ⟨.error f, after, written⟩) :
    after.cycles = m.cycles ∧ after.last = m.last := by
  have ends := m.step_ends out
  rw [failed] at ends
  cases ends <;> exact ⟨rfl, rfl⟩

/-- A step that fails on a machine that had stopped changes nothing. One that fails
on a running machine stops it with the fetched opcode byte in IR, changes nothing
else of it, and writes nothing unless it is the sink that refused. -/
theorem step_fault_atomic {m after : Machine} {out written : σ} {f : Fault}
    (failed : m.step out = ⟨.error f, after, written⟩) :
    (m.state ≠ .running → after = m ∧ written = out) ∧
    (m.state = .running →
      after = { m with
        state := .faulted
        regs := { m.regs with
          ir := match m.mem.read m.regs.pc with
            | .ok byte => byte
            | .error _ => m.regs.ir } } ∧
      ((∀ reason, f ≠ .output reason) → written = out)) := by
  constructor
  · intro stopped
    rw [step_of_stopped stopped] at failed
    cases failed
    exact ⟨rfl, rfl⟩
  · intro running
    rw [step_of_running running] at failed
    cases fetch : m.mem.read m.regs.pc with
    | error e =>
      rw [fetch] at failed
      cases failed
      exact ⟨rfl, fun _ => rfl⟩
    | ok byte =>
      simp only [fetch] at failed
      cases known : Opcode.ofByte? byte with
      | none =>
        simp only [known] at failed
        cases failed
        exact ⟨rfl, fun _ => rfl⟩
      | some opcode =>
        simp only [known] at failed
        rcases effect : (m.instructionAt opcode).perform (m.fetched byte).regs m.mem out with
          ⟨e | done, out'⟩
        · rw [effect] at failed
          cases failed
          exact ⟨rfl, Instruction.out_of_perform_error effect⟩
        · rw [effect] at failed
          cases failed

def strayPush : Machine :=
  ⟨⟨#v[1, 2, 3, 0, 0, 0, 0, 6], 0, 0xA0, 2⟩, ⟨#[0x4D, 2, 0, 0], by decide⟩, .running, 5, none⟩

theorem step_fault_atomic_strayPush :
    strayPush.step (#[] : Array UInt8) =
      ⟨.error (.memory (.addressOutOfRange 5 4)),
        { strayPush with state := .faulted, regs := { strayPush.regs with ir := 0x4D } }, #[]⟩ ∧
    strayPush.state = .running ∧
    ((∀ reason, Fault.memory (.addressOutOfRange 5 4) ≠ .output reason) →
      (#[] : Array UInt8) = #[]) := by
  have failed : strayPush.step (#[] : Array UInt8) =
      ⟨.error (.memory (.addressOutOfRange 5 4)),
        { strayPush with state := .faulted, regs := { strayPush.regs with ir := 0x4D } }, #[]⟩ := rfl
  exact ⟨failed, rfl, ((step_fault_atomic failed).2 rfl).2⟩

end ByteMachine.Machine
