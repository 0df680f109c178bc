import ByteMachine.Proofs.Machine.Build
import ByteMachine.Proofs.MemorySafety
import Mathlib.Logic.Relation

/-! The machines that are reached from power-on in some build, whatever programs are loaded and
whatever sinks are at hand. All that becomes of a machine between two resets comes of loading
programs and of single steps, so what these preserve holds of every machine that is reached. -/
namespace ByteMachine.Machine

/-- What a machine becomes by one use of it. A call that panics or does not end leaves no
machine behind. -/
inductive Use (build : Build) : Machine → Machine → Prop
  | load (m : Machine) (program : List UInt8) : Use build m (m.load program).2
  | step {σ : Type} [Sink σ] {m : Machine} {out : σ} {finish : Outcome σ Instruction}
    (returned : m.stepIn build out = some finish) : Use build m finish.machine
  | run {σ : Type} [Sink σ] {m : Machine} {out : σ} {finish : Outcome σ UInt64}
    (ended : m.runIn build out = some finish) : Use build m finish.machine
  | runLimited {σ : Type} [Sink σ] {m : Machine} {out : σ} {finish : Outcome σ UInt64}
    {budget : UInt64} (returned : m.runLimitedIn build budget out = some finish) :
    Use build m finish.machine

/-- The machines that any uses and resets lead to from the power-on machine with a memory. -/
inductive Reachable (build : Build) (mem : Memory) : Machine → Prop
  | powerOn : Reachable build mem (powerOn mem)
  | use {m after : Machine} (reachable : Reachable build mem m) (use : Use build m after) :
    Reachable build mem after
  | reset {m : Machine} (reachable : Reachable build mem m) : Reachable build mem m.reset

structure Preserved (p : Machine → Prop) : Prop where
  cells : ∀ {m : Machine} {mem : Memory}, mem.size = m.mem.size → p m → p { m with mem }
  executed : ∀ {σ : Type} [Sink σ] {m after : Machine} {out written : σ} {i : Instruction},
    m.Executed out i after written → p m → p after
  faulted : ∀ {m : Machine} (ir : UInt8), m.state = .running → p m →
    p { m with state := .faulted, regs := { m.regs with ir } }

theorem size_preserved (n : Nat) : Preserved fun m => m.mem.size = n where
  cells same size := same.trans size
  executed done size := done.size.trans size
  faulted _ _ size := size

namespace Preserved
variable {p : Machine → Prop} {σ : Type} [Sink σ] {m : Machine}

theorem step (preserved : Preserved p) (holds : p m) (out : σ) : p (m.step out).machine := by
  have ends := m.step_ends out
  generalize m.step out = done at ends ⊢
  cases ends with
  | stopped _ => exact holds
  | outside running _ => exact preserved.faulted m.regs.ir running holds
  | unknown running _ _ => exact preserved.faulted _ running holds
  | failed running _ _ => exact preserved.faulted _ running holds
  | executed running read performed =>
    exact preserved.executed (commit_executed running read performed) holds

theorem after (preserved : Preserved p) (holds : p m) (out : σ) (n : Nat) :
    p (m.after out n).1 := by
  induction n with
  | zero => exact holds
  | succ n ih =>
    rw [after_succ]
    exact preserved.step ih _

theorem load (preserved : Preserved p) (holds : p m) (program : List UInt8) :
    p (m.load program).2 := preserved.cells (m.size_load program) holds

theorem runLimited (preserved : Preserved p) (holds : p m) (out : σ) (budget : UInt64) :
    p (m.runLimited budget out).machine := by
  obtain ⟨n, -, run⟩ := m.runLimited_after out budget
  rw [run]
  exact preserved.after holds out n

theorem use {build : Build} {after : Machine} (preserved : Preserved p)
    (use : Use build m after) (holds : p m) : p after := by
  cases use with
  | load _ program => exact preserved.load holds program
  | step returned =>
    rw [← step_of_stepIn returned]
    exact preserved.step holds _
  | @run _ _ _ out finish ended =>
    obtain ⟨-, n, -, steps, -⟩ := run?_runLimited (run?_of_runIn ended)
    have machine : finish.machine = (m.after out n).1 := congrArg Prod.fst steps
    rw [machine]
    exact preserved.after holds out n
  | runLimited returned =>
    rw [← runLimited_of_runLimitedIn returned]
    exact preserved.runLimited holds _ _

end Preserved

namespace Reachable
variable {build : Build} {mem : Memory} {m : Machine}

theorem size (reachable : Reachable build mem m) : m.mem.size = mem.size := by
  induction reachable with
  | powerOn => rfl
  | use _ use ih => exact (size_preserved _).use use ih
  | reset _ ih => exact (Memory.size_clear _).trans ih

theorem invariant {p : Machine → Prop} (powerOn : ∀ mem, p (Machine.powerOn mem))
    (preserved : Preserved p) (reachable : Reachable build mem m) : p m := by
  induction reachable with
  | powerOn => exact powerOn mem
  | use _ use ih => exact preserved.use use ih
  | reset _ _ => exact powerOn _

end Reachable

end ByteMachine.Machine
