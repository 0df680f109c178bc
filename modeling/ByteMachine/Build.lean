import ByteMachine.Machine

/-! Builds of the program. The instructions are counted in words, and what becomes of a sum that
is too large for a word is up to the build: the sum wraps around, as it does in `Machine.step` and
`Machine.runLimited`, or the program panics, and the call that computes it has no outcome. -/
namespace ByteMachine

inductive Build where
  | wrapping
  | checked
deriving DecidableEq

/-- Whether the sum of two words cannot be computed. -/
def Build.Overflows (build : Build) (x y : UInt64) : Prop :=
  build = .checked ∧ UInt64.size ≤ x.toNat + y.toNat

instance (build : Build) (x y : UInt64) : Decidable (build.Overflows x y) :=
  inferInstanceAs (Decidable (_ ∧ _))

def Build.sum? (build : Build) (x y : UInt64) : Option UInt64 :=
  if build.Overflows x y then none else some (x + y)

namespace Machine
variable {σ : Type} [Sink σ]

def stepIn (build : Build) (m : Machine) (out : σ) : Option (Outcome σ Instruction) :=
  if m.state ≠ .running then some ⟨.error (.notRunning m.state), m, out⟩
  else match m.execute out with
    | ⟨.ok i, m, out⟩ =>
      (build.sum? m.cycles 1).map fun cycles => ⟨.ok i, { m with cycles, last := some i }, out⟩
    | ⟨.error f, m, out⟩ => some ⟨.error f, m.fault, out⟩

def advanceToIn (build : Build) (limit : UInt64) (m : Machine) (out : σ) :
    Option (Outcome σ Unit) :=
  if m.state = .running ∧ m.cycles < limit then
    match m.stepIn build out with
    | none => none
    | some ⟨.ok _, m, out⟩ => m |>.advanceToIn build limit out
    | some ⟨.error f, m, out⟩ => some ⟨.error f, m, out⟩
  else some ⟨.ok (), m, out⟩
partial_fixpoint

def runLimitedIn (build : Build) (budget : UInt64) (m : Machine) (out : σ) :
    Option (Outcome σ UInt64) := do
  let limit ← build.sum? m.cycles budget
  (m.advanceToIn build limit out).map (Outcome.counted m.cycles)

def finishIn (build : Build) (m : Machine) (out : σ) : Option (Outcome σ Unit) :=
  if m.state = .running then
    match m.stepIn build out with
    | none => none
    | some ⟨.ok _, m, out⟩ => m |>.finishIn build out
    | some ⟨.error f, m, out⟩ => some ⟨.error f, m, out⟩
  else some ⟨.ok (), m, out⟩
partial_fixpoint

/-- A run without a budget. There is no outcome if it panics or never ends. -/
def runIn (build : Build) (m : Machine) (out : σ) : Option (Outcome σ UInt64) :=
  (m.finishIn build out).map (Outcome.counted m.cycles)

end Machine

end ByteMachine
