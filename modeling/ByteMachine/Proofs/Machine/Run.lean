import ByteMachine.Machine
import Mathlib.Data.ENat.Lattice
import Mathlib.Logic.Function.Iterate

/-! A machine that is stepped again and again, whatever comes of the steps. Once it has
stopped it stays as it is, so it has a lifetime: a number of steps, or no end. -/
namespace ByteMachine

/-- The first time at which something holds, infinite if it never does. -/
noncomputable def firstTime (p : Nat → Prop) : ℕ∞ := ⨅ k, ⨅ _ : p k, (k : ℕ∞)

theorem le_firstTime_iff {p : Nat → Prop} {n : Nat} : n ≤ firstTime p ↔ ∀ k < n, ¬ p k := by
  simp only [firstTime, le_iInf_iff, Nat.cast_le]
  constructor
  · intro bound k less holds
    exact Nat.not_le.2 less (bound k holds)
  · intro never k holds
    exact Nat.not_lt.1 fun less => never k less holds

theorem firstTime_eq {p : Nat → Prop} {n : Nat} (holds : p n) (never : ∀ k < n, ¬ p k) :
    firstTime p = n :=
  le_antisymm (iInf₂_le n holds) (le_firstTime_iff.2 never)

theorem min_firstTime (p q : Nat → Prop) :
    min (firstTime p) (firstTime q) = firstTime fun k => p k ∨ q k := by
  simp only [firstTime, iInf_or, iInf_inf_eq]

namespace Machine
variable {σ : Type} [Sink σ]

theorem stopped_of_step_error {m after : Machine} {out written : σ} {f : Fault}
    (failed : m.step out = ⟨.error f, after, written⟩) : after.state ≠ .running := by
  by_cases stopped : m.state ≠ .running
  · rw [step_of_stopped stopped] at failed
    cases failed
    exact stopped
  · rw [step, if_neg stopped] at failed
    split at failed <;> cases failed
    exact RunState.noConfusion

def proceed (now : Machine × σ) : Machine × σ :=
  let done := now.1.step now.2
  (done.machine, done.out)

def after (m : Machine) (out : σ) (n : Nat) : Machine × σ := proceed^[n] (m, out)

theorem after_succ (m : Machine) (out : σ) (n : Nat) :
    m.after out (n + 1) = proceed (m.after out n) := Function.iterate_succ_apply' proceed n _

theorem after_succ_eq (m : Machine) (out : σ) (n : Nat) :
    m.after out (n + 1) = (m.step out).machine.after (m.step out).out n := rfl

theorem after_of_stopped {m : Machine} (stopped : m.state ≠ .running) (out : σ) (n : Nat) :
    m.after out n = (m, out) := by
  have still : proceed (m, out) = (m, out) := by rw [proceed, step_of_stopped stopped]
  exact Function.iterate_fixed still n

noncomputable def lifetime (m : Machine) (out : σ) : ℕ∞ :=
  firstTime fun k => (m.after out k).1.state ≠ .running

end Machine

end ByteMachine
