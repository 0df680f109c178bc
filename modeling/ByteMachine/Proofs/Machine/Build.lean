import ByteMachine.Build
import ByteMachine.Proofs.Machine.Budget

/-! What the builds of the program have in common. A panic can come only with the last count of
all, or with a budget that is too large, and then it comes before the first step; but for that
every build does the same. -/
namespace ByteMachine.Machine
variable {σ : Type} [Sink σ] {m after : Machine} {out written : σ} {build : Build}

theorem stepIn_of_error {f : Fault} (failed : m.step out = ⟨.error f, after, written⟩) :
    m.stepIn build out = some ⟨.error f, after, written⟩ := by
  by_cases stopped : m.state ≠ .running
  · rw [step_of_stopped stopped] at failed
    rw [stepIn, if_pos stopped, failed]
  · rw [step, if_neg stopped] at failed
    rw [stepIn, if_neg stopped]
    rcases executed : m.execute out with ⟨e | i, now, sink⟩ <;> rw [executed] at failed <;>
      cases failed
    rfl

theorem stepIn_of_ok {i : Instruction} (succeeded : m.step out = ⟨.ok i, after, written⟩) :
    m.stepIn build out =
      if build.Overflows m.cycles 1 then none else some ⟨.ok i, after, written⟩ := by
  have running := running_of_step_ok succeeded
  have same := m.cycles_execute out
  rw [step, if_neg (not_not.2 running)] at succeeded
  rw [stepIn, if_neg (not_not.2 running)]
  rcases executed : m.execute out with ⟨e | j, now, sink⟩ <;> rw [executed] at same succeeded <;>
    cases succeeded
  simp only at same
  simp only [same, Build.sum?]
  split <;> rfl

/-- A step is the same in every build, unless it executes an instruction that cannot be counted. -/
theorem stepIn_eq (build : Build) (m : Machine) (out : σ) : m.stepIn build out =
    if build.Overflows m.cycles 1 ∧ Except.error? (m.step out).result = none then none
    else some (m.step out) := by
  rcases done : m.step out with ⟨f | i, after, written⟩
  · rw [stepIn_of_error done, if_neg]
    exact fun panics => nomatch panics.2
  · rw [stepIn_of_ok done]
    simp only [Except.error?, and_true]

theorem step_of_stepIn {finish : Outcome σ Instruction}
    (returned : m.stepIn build out = some finish) : m.step out = finish := by
  rw [stepIn_eq] at returned
  split at returned
  · cases returned
  · exact Option.some.inj returned

theorem count_lt_of_stepIn {i : Instruction}
    (succeeded : m.stepIn .checked out = some ⟨.ok i, after, written⟩) :
    m.cycles.toNat + 1 < 2 ^ 64 := by
  by_contra large
  rw [stepIn_of_ok (step_of_stepIn succeeded), if_pos ⟨rfl, Nat.not_lt.1 large⟩] at succeeded
  cases succeeded

theorem not_overflows {count limit : UInt64} (below : count < limit) (build : Build) :
    ¬ build.Overflows count 1 := by
  have less := UInt64.lt_iff_toNat_lt.1 below
  have bound := limit.toNat_lt_size
  rintro ⟨-, large⟩
  rw [UInt64.toNat_one] at large
  omega

theorem advanceToIn_eq (build : Build) (limit : UInt64) (m : Machine) (out : σ) :
    m.advanceToIn build limit out = some (m.advanceTo limit out) := by
  rw [advanceTo_eq]
  generalize left : limit.toNat - m.cycles.toNat = n
  induction n generalizing m out with
  | zero =>
    rw [advanceToIn, advance, if_neg]
    intro ready
    have below := UInt64.lt_iff_toNat_lt.1 ready.2
    omega
  | succ n ih =>
    by_cases running : m.state = .running
    · have below : m.cycles < limit := UInt64.lt_iff_toNat_lt.2 (by omega)
      rw [advanceToIn, if_pos ⟨running, below⟩]
      rcases done : m.step out with ⟨f | i, after, written⟩
      · rw [advance_of_error running done, stepIn_of_error done]
      · have counted : after.cycles.toNat = m.cycles.toNat + 1 := by
          rw [cycles_step_ok done, toNat_add_one below]
        rw [advance_of_ok done, stepIn_of_ok done, if_neg (not_overflows below build)]
        exact ih after written (by omega)
    · rw [advanceToIn, if_neg fun ready => running ready.1, advance_of_stopped running]

/-- A run with a budget panics before its first step or never, and but for that it is the same
in every build. -/
theorem runLimitedIn_eq (build : Build) (m : Machine) (out : σ) (budget : UInt64) :
    m.runLimitedIn build budget out =
      if build.Overflows m.cycles budget then none else some (m.runLimited budget out) := by
  rw [runLimitedIn, Build.sum?]
  split
  · rfl
  · change (m.advanceToIn build (m.cycles + budget) out).map _ = _
    rw [advanceToIn_eq, runLimited]
    rfl

/-! ### What is returned -/

theorem runLimited_of_runLimitedIn {budget : UInt64} {finish : Outcome σ UInt64}
    (returned : m.runLimitedIn build budget out = some finish) :
    m.runLimited budget out = finish := by
  rw [runLimitedIn_eq] at returned
  split at returned
  · cases returned
  · exact Option.some.inj returned

theorem finish?_of_finishIn {finish : Outcome σ Unit}
    (ended : m.finishIn build out = some finish) : m.finish? out = some finish := by
  revert m out finish
  apply finishIn.partial_correctness build
  intro finishIn ih m out finish ended
  rw [finish?]
  split at ended
  · next running =>
    rw [if_pos running]
    split at ended
    · cases ended
    · next returned =>
      rw [step_of_stepIn returned]
      exact ih _ _ _ ended
    · next returned =>
      rw [step_of_stepIn returned]
      exact ended
  · next stopped =>
    rw [if_neg stopped]
    exact ended

theorem run?_of_runIn {finish : Outcome σ UInt64} (ended : m.runIn build out = some finish) :
    m.run? out = some finish := by
  obtain ⟨last, reached, rfl⟩ := Option.map_eq_some_iff.1 ended
  rw [run?, finish?_of_finishIn reached]
  rfl

end ByteMachine.Machine
