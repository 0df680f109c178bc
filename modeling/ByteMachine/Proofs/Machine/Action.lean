import ByteMachine.Action
import ByteMachine.Proofs.Result

/-! An instruction carried out write after write comes to what its effect says: if
it succeeds, the registers and the memory are those of the effect, and if it fails,
they are as they were, whatever had been read and written before the fault. -/
namespace ByteMachine

namespace Action
variable {σ α β : Type}

theorem runOn_pure (a : α) (core : Core σ) : (pure a : Action σ α).runOn core = (.ok a, core) := rfl

theorem runOn_bind (x : Action σ α) (f : α → Action σ β) (core : Core σ) :
    (x >>= f).runOn core =
      match x.runOn core with
      | (.ok a, core) => (f a).runOn core
      | (.error e, core) => (.error e, core) := by
  simp only [runOn, ExceptT.run_bind, StateT.run_bind]
  change (match (x.run.run core) with | (a, s) => _) = _
  rcases x.run.run core with ⟨_ | a, after⟩ <;> rfl

theorem runOn_get (core : Core σ) : (get : Action σ (Core σ)).runOn core = (.ok core, core) := rfl

theorem runOn_modify (f : Core σ → Core σ) (core : Core σ) :
    (modify f : Action σ Unit).runOn core = (.ok (), f core) := rfl

theorem runOn_lift (x : Except Fault α) (core : Core σ) :
    (liftM x : Action σ α).runOn core = (x, core) := rfl

theorem runOn_readRegister (index : UInt8) (core : Core σ) :
    (readRegister index).runOn core = ((core.regs.read index).mapError .register, core) := rfl

theorem runOn_readCell (address : UInt8) (core : Core σ) :
    (readCell address).runOn core = ((core.mem.read address).mapError .memory, core) := rfl

theorem runOn_writeRegister (index value : UInt8) (core : Core σ) :
    (writeRegister index value).runOn core =
      match core.regs.write index value with
      | .ok regs => (.ok (), { core with regs })
      | .error e => (.error (.register e), core) := by
  simp only [writeRegister, runOn_bind, runOn_get, runOn_lift]
  cases core.regs.write index value <;> rfl

theorem runOn_writeCell (address value : UInt8) (core : Core σ) :
    (writeCell address value).runOn core =
      match core.mem.write address value with
      | .ok mem => (.ok (), { core with mem })
      | .error e => (.error (.memory e), core) := by
  simp only [writeCell, runOn_bind, runOn_get, runOn_lift]
  cases core.mem.write address value <;> rfl

theorem runOn_print [Sink σ] (b : UInt8) (core : Core σ) :
    (print b).runOn core =
      ((Sink.write core.out b).1.mapError .output,
        { core with out := (Sink.write core.out b).2 }) := by
  simp only [print, runOn_bind, runOn_get, runOn_lift, runOn_modify]

end Action

namespace Instruction
variable {σ : Type}

/-- What an action leaves that comes to an effect: all of the effect, or nothing. -/
def settle (core : Core σ) : Except Fault Effect → Except Fault Flow × Core σ
  | .ok done => (.ok done.flow, { core with regs := done.regs, mem := done.mem })
  | .error f => (.error f, core)

open ByteMachine.Action

theorem runOn_push (index : UInt8) (core : Core σ) :
    (Action.push index).runOn core =
      settle core (do push (core.regs.get (← register index)) core.regs core.mem) := by
  simp only [Action.push, runOn_bind, runOn_readRegister, runOn_get, runOn_writeCell]
  cases named : Register.ofByte index with
  | error e =>
    simp only [register, Registers.read_of_ofByte_error named, named]
    rfl
  | ok r =>
    simp only [register, push, Registers.read_of_ofByte named, named, Except.mapError_ok]
    cases stored : core.mem.write (core.mem.prev core.regs.sp) (core.regs.get r) with
    | error e => simp [settle, stored, Except.mapError_error, bind, Except.bind]
    | ok mem =>
      simp only [runOn_writeRegister, Registers.write_stackPointer, runOn_pure]
      simp [settle, stored, Except.mapError_ok, bind, Except.bind, pure, Except.pure]

theorem runOn_pop (index : UInt8) (core : Core σ) :
    (Action.pop index).runOn core =
      settle core (do pop (← register index) core.regs core.mem) := by
  simp only [Action.pop, runOn_bind, runOn_readRegister, runOn_get, runOn_readCell]
  cases named : Register.ofByte index with
  | error e =>
    simp only [register, Registers.read_of_ofByte_error named, named]
    rfl
  | ok r =>
    simp only [register, pop, Registers.read_of_ofByte named, named, Except.mapError_ok]
    cases core.mem.read core.regs.sp with
    | error e => simp [settle, Except.mapError_error, bind, Except.bind]
    | ok value =>
      simp only [runOn_writeRegister, Registers.write_stackPointer,
        Registers.write_of_ofByte named, runOn_pure]
      simp [settle, Except.mapError_ok, bind, Except.bind, pure, Except.pure]

theorem runOn_arithmetic (op : Operation) (index : UInt8) (second : Operand) (core : Core σ) :
    (arithmetic op index second).runOn core =
      settle core (compute op index second core.regs core.mem) := by
  simp only [arithmetic, compute, runOn_bind, runOn_get, runOn_lift]
  cases core.regs.apply op index second <;> rfl

theorem runOn_load (index value : UInt8) (core : Core σ) :
    (load index value).runOn core = settle core (do
      return { regs := core.regs.set (← register index) value, mem := core.mem, flow := .next }) := by
  simp only [load, runOn_bind, runOn_writeRegister]
  cases named : Register.ofByte index with
  | error e =>
    simp only [register, Registers.write_of_ofByte_error named, named]
    rfl
  | ok r =>
    simp only [register, Registers.write_of_ofByte named, named]
    rfl

theorem runOn_jumpIf (condition : Registers → Bool) (index : UInt8) (core : Core σ) :
    (jumpIf condition index).runOn core = settle core (do
      let target := core.regs.get (← register index)
      return {
        regs := core.regs, mem := core.mem,
        flow := if condition core.regs then .jump target else .next }) := by
  simp only [jumpIf, runOn_bind, runOn_readRegister, runOn_get, runOn_pure]
  cases named : Register.ofByte index with
  | error e =>
    simp only [register, Registers.read_of_ofByte_error named, named]
    rfl
  | ok r =>
    simp only [register, Registers.read_of_ofByte named, named]
    rfl

theorem runOn_printRegister [Sink σ] (index : UInt8) (core : Core σ) :
    (printRegister index).runOn core =
      match Register.ofByte index with
      | .error e => (.error (.register e), core)
      | .ok r =>
        match Sink.write core.out (core.regs.get r) with
        | (.ok (), out) => (.ok .next, { core with out })
        | (.error reason, out) => (.error (.output reason), { core with out }) := by
  simp only [printRegister, runOn_bind, runOn_readRegister, runOn_print]
  cases named : Register.ofByte index with
  | error e =>
    simp only [Registers.read_of_ofByte_error named]
    rfl
  | ok r =>
    simp only [Registers.read_of_ofByte named, Except.mapError_ok]
    rcases Sink.write core.out (core.regs.get r) with ⟨_ | _, out⟩ <;> rfl

theorem run_eq_settle [Sink σ] {i : Instruction} (silent : i.opcode ≠ .prn) (core : Core σ) :
    i.run core = settle core (i.effect core.regs core.mem) := by
  obtain ⟨opcode, a, b⟩ := i
  cases opcode with
  | prn => exact absurd rfl silent
  | hlt => rfl
  | push => exact runOn_push a core
  | pop => exact runOn_pop a core
  | ldi => exact runOn_load a b core
  | jmp => exact runOn_jumpIf (fun _ => true) a core
  | jeq => exact runOn_jumpIf Registers.equal a core
  | jne =>
    refine (runOn_jumpIf (fun regs => !regs.equal) a core).trans ?_
    cases taken : core.regs.equal <;> simp [effect, taken]
  | inc => exact runOn_arithmetic .inc a .none core
  | dec => exact runOn_arithmetic .dec a .none core
  | cmp => exact runOn_arithmetic .cmp a (.register b) core
  | add => exact runOn_arithmetic .add a (.register b) core
  | sub => exact runOn_arithmetic .sub a (.register b) core
  | mul => exact runOn_arithmetic .mul a (.register b) core
  | div => exact runOn_arithmetic .div a (.register b) core

theorem printed_eq_none {i : Instruction} (silent : i.opcode ≠ .prn) {regs : Registers}
    {mem : Memory} {done : Effect} (h : i.effect regs mem = .ok done) : done.printed = none := by
  obtain ⟨opcode, a, b⟩ := i
  cases opcode with
  | prn => exact absurd rfl silent
  | hlt =>
    cases h
    rfl
  | push | pop | jmp | jeq | jne | ldi | inc | dec | cmp | add | sub | mul | div =>
    simp only [effect, push, pop, compute, Except.bind_eq_ok_iff, Except.pure_eq_ok_iff] at h
    grind

theorem run_eq_perform [Sink σ] (i : Instruction) (core : Core σ) :
    i.run core =
      match i.perform core.regs core.mem core.out with
      | (.ok done, out) => (.ok done.flow, ⟨done.regs, done.mem, out⟩)
      | (.error f, out) => (.error f, { core with out }) := by
  by_cases printing : i.opcode = .prn
  · obtain ⟨opcode, a, b⟩ := i
    subst printing
    refine (runOn_printRegister a core).trans ?_
    simp only [perform, effect, register]
    cases Register.ofByte a with
    | error e => rfl
    | ok r =>
      simp only [Except.mapError_ok, bind, Except.bind, pure, Except.pure]
      rcases Sink.write core.out (core.regs.get r) with ⟨_ | _, out⟩ <;> rfl
  · rw [run_eq_settle printing, perform]
    cases h : i.effect core.regs core.mem with
    | error f => rfl
    | ok done =>
      simp only [printed_eq_none printing h]
      rfl

theorem perform_eq_ok [Sink σ] {i : Instruction} {regs : Registers} {mem : Memory}
    {out written : σ} {done : Effect} (h : i.perform regs mem out = (.ok done, written)) :
    i.effect regs mem = .ok done ∧
      match done.printed with
      | none => written = out
      | some b => Sink.write out b = (.ok (), written) := by
  unfold perform at h
  split at h
  · cases h
  · next effect =>
    split at h
    · next silent =>
      cases h
      exact ⟨effect, by simp [silent]⟩
    · next printing =>
      split at h
      · next taken =>
        cases h
        exact ⟨effect, by simp [printing, taken]⟩
      · cases h

theorem out_of_perform_error [Sink σ] {i : Instruction} {regs : Registers} {mem : Memory}
    {out written : σ} {f : Fault} (failed : i.perform regs mem out = (.error f, written))
    (kept : ∀ reason, f ≠ .output reason) : written = out := by
  unfold perform at failed
  split at failed
  · cases failed
    rfl
  · split at failed
    · cases failed
    · split at failed
      · cases failed
      · cases failed
        exact absurd rfl (kept _)

end Instruction

end ByteMachine
