import ByteMachine.Proofs.Machine.Action

/-! Instructions carried out one after the other, without a machine that fetches them. They read
and write the general registers, the flags, the memory and the sink; the program counter and the
opcode byte in IR make no difference to them and stay as they are. -/
namespace ByteMachine

namespace Registers

def fetching (regs : Registers) (pc ir : UInt8) : Registers := { regs with pc, ir }

theorem apply_fetching (regs : Registers) (pc ir : UInt8) (op : Operation) (index : UInt8)
    (second : Operand) : (regs.fetching pc ir).apply op index second =
      (regs.apply op index second).map fun after => after.fetching pc ir := by
  have first : (regs.fetching pc ir).read index = regs.read index := rfl
  have other : second.read (regs.fetching pc ir) = second.read regs := by cases second <;> rfl
  have stored (v : UInt8) : (regs.fetching pc ir).write index v =
      (regs.write index v).map fun after => after.fetching pc ir := by
    simp only [write]
    cases Register.ofByte index <;> rfl
  simp only [apply, first, other, stored]
  rcases regs.read index with e | a
  · rfl
  rcases second.read regs with e | b
  · rfl
  simp only [Except.mapError_ok, bind, Except.bind]
  rcases op.compute a b with e | v | o
  · rfl
  · simp only
    cases regs.write index v <;> rfl
  · rfl

end Registers

def Effect.fetching (done : Effect) (pc ir : UInt8) : Effect :=
  { done with regs := done.regs.fetching pc ir }

namespace Instruction

theorem effect_fetching (i : Instruction) (regs : Registers) (mem : Memory) (pc ir : UInt8) :
    i.effect (regs.fetching pc ir) mem =
      (i.effect regs mem).map fun done => done.fetching pc ir := by
  have pointer : (regs.fetching pc ir).sp = regs.sp := rfl
  have general (r : Register) : (regs.fetching pc ir).get r = regs.get r := rfl
  obtain ⟨opcode, a, b⟩ := i
  cases opcode with
  | hlt => rfl
  | prn | ldi | jmp | jeq | jne =>
    simp only [effect]
    cases register a <;> rfl
  | push =>
    simp only [effect]
    rcases register a with e | r
    · rfl
    simp only [bind, Except.bind, push, pointer, general]
    cases mem.write (mem.prev regs.sp) (regs.get r) <;> rfl
  | pop =>
    simp only [effect]
    rcases register a with e | r
    · rfl
    simp only [bind, Except.bind, pop, pointer]
    cases mem.read regs.sp <;> rfl
  | inc | dec | cmp | add | sub | mul | div =>
    simp only [effect, compute, Registers.apply_fetching]
    cases regs.apply _ a _ <;> rfl

variable {σ : Type} [Sink σ]

theorem perform_fetching (i : Instruction) (regs : Registers) (mem : Memory) (pc ir : UInt8)
    (out : σ) : i.perform (regs.fetching pc ir) mem out =
      ((i.perform regs mem out).1.map fun done => done.fetching pc ir,
        (i.perform regs mem out).2) := by
  simp only [perform, effect_fetching]
  rcases i.effect regs mem with f | ⟨after, cells, flow, _ | b⟩
  · rfl
  · rfl
  · simp only [Except.map, Effect.fetching]
    rcases Sink.write out b with ⟨_ | _, written⟩ <;> rfl

/-- Carries out instructions in order, up to the first that fails. Where they would lead is of no
account. -/
def runAll : List Instruction → Core σ → Except Fault Unit × Core σ
  | [], core => (.ok (), core)
  | i :: rest, core =>
    match i.run core with
    | (.ok _, core) => runAll rest core
    | (.error f, core) => (.error f, core)

variable {core after : Core σ} {i : Instruction}

theorem runAll_cons {flow : Flow} (done : i.run core = (.ok flow, after))
    (rest : List Instruction) : runAll (i :: rest) core = runAll rest after := by
  rw [runAll, done]

theorem runAll_append {first : List Instruction} (done : runAll first core = (.ok (), after))
    (second : List Instruction) : runAll (first ++ second) core = runAll second after := by
  induction first generalizing core with
  | nil =>
    cases done
    rfl
  | cons i first ih =>
    rw [runAll] at done
    rw [List.cons_append, runAll]
    rcases ran : i.run core with ⟨f | flow, now⟩
    · rw [ran] at done
      cases done
    · rw [ran] at done
      exact ih done

theorem runAll_concat {first : List Instruction} (done : runAll first core = (.ok (), after))
    (i : Instruction) : runAll (first ++ [i]) core =
      ((i.run after).1.map fun _ => (), (i.run after).2) := by
  rw [runAll_append done, runAll]
  rcases i.run after with ⟨f | flow, now⟩ <;> rfl

end Instruction

end ByteMachine
