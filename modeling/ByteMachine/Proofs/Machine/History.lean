import ByteMachine.Proofs.Machine.Reachable

/-! How many instructions a machine has executed since power-on or the last reset. A run is a row
of steps, so single steps tell that of every machine that is reached. The count in the machine
is this number as a word: it comes around to zero where the build lets it. -/
namespace ByteMachine.Machine

/-- The machines that are reached by loading, single steps and resets, with the number of
instructions that were executed since power-on or the last reset. -/
inductive History (build : Build) (mem : Memory) : Nat → Machine → Prop
  | powerOn : History build mem 0 (powerOn mem)
  | load {n : Nat} {m : Machine} (history : History build mem n m) (program : List UInt8) :
    History build mem n (m.load program).2
  | executed {σ : Type} [Sink σ] {n : Nat} {m after : Machine} {out written : σ}
    {i : Instruction} (history : History build mem n m)
    (succeeded : m.stepIn build out = some ⟨.ok i, after, written⟩) :
    History build mem (n + 1) after
  | failed {σ : Type} [Sink σ] {n : Nat} {m after : Machine} {out written : σ} {f : Fault}
    (history : History build mem n m)
    (failed : m.stepIn build out = some ⟨.error f, after, written⟩) : History build mem n after
  | reset {n : Nat} {m : Machine} (history : History build mem n m) : History build mem 0 m.reset

variable {build : Build} {mem : Memory} {m : Machine} {n : Nat}

namespace History

theorem reachable (history : History build mem n m) : Reachable build mem m := by
  induction history with
  | powerOn => exact .powerOn
  | load _ program ih => exact .use ih (.load _ program)
  | executed _ succeeded ih => exact .use ih (.step succeeded)
  | failed _ failed ih => exact .use ih (.step failed)
  | reset _ ih => exact .reset ih

variable {σ : Type} [Sink σ] {out : σ}

theorem step {finish : Outcome σ Instruction} (history : History build mem n m)
    (returned : m.stepIn build out = some finish) : ∃ k, History build mem k finish.machine := by
  rcases finish with ⟨f | i, after, written⟩
  · exact ⟨n, history.failed returned⟩
  · exact ⟨n + 1, history.executed returned⟩

theorem of_finishIn {finish : Outcome σ Unit} (ended : m.finishIn build out = some finish) :
    ∀ {n}, History build mem n m → ∃ k, History build mem k finish.machine := by
  revert m out finish
  apply finishIn.partial_correctness build
  intro finishIn ih m out finish ended n history
  split at ended
  · split at ended
    · cases ended
    · next returned => exact ih _ _ _ ended (history.executed returned)
    · next returned =>
      cases ended
      exact ⟨n, history.failed returned⟩
  · cases ended
    exact ⟨n, history⟩

theorem of_advanceToIn {limit : UInt64} {finish : Outcome σ Unit}
    (ended : m.advanceToIn build limit out = some finish) :
    ∀ {n}, History build mem n m → ∃ k, History build mem k finish.machine := by
  revert m out finish
  apply advanceToIn.partial_correctness build limit
  intro advanceToIn ih m out finish ended n history
  split at ended
  · split at ended
    · cases ended
    · next returned => exact ih _ _ _ ended (history.executed returned)
    · next returned =>
      cases ended
      exact ⟨n, history.failed returned⟩
  · cases ended
    exact ⟨n, history⟩

end History

/-- Every machine that is reached has a history, as runs make one step after the other. -/
theorem Reachable.history (reachable : Reachable build mem m) : ∃ n, History build mem n m := by
  induction reachable with
  | powerOn => exact ⟨0, .powerOn⟩
  | use _ use ih =>
    obtain ⟨n, history⟩ := ih
    cases use with
    | load _ program => exact ⟨n, history.load program⟩
    | step returned => exact history.step returned
    | run ended =>
      obtain ⟨last, reached, rfl⟩ := Option.map_eq_some_iff.1 ended
      exact History.of_finishIn reached history
    | runLimited returned =>
      obtain ⟨limit, -, returned⟩ := Option.bind_eq_some_iff.1 returned
      obtain ⟨last, reached, rfl⟩ := Option.map_eq_some_iff.1 returned
      exact History.of_advanceToIn reached history
  | reset _ ih =>
    obtain ⟨n, history⟩ := ih
    exact ⟨0, history.reset⟩

structure Counts (build : Build) (n : Nat) (m : Machine) : Prop where
  cycles : m.cycles.toNat = n % 2 ^ 64
  unused : n = 0 ↔ m.last = none
  counted : build = .checked → n < 2 ^ 64

theorem counts_powerOn (build : Build) (mem : Memory) : Counts build 0 (powerOn mem) :=
  ⟨rfl, iff_of_true rfl rfl, fun _ => by decide⟩

theorem Counts.executed {σ : Type} [Sink σ] {after : Machine} {out written : σ}
    {i : Instruction} (counts : Counts build n m)
    (succeeded : m.stepIn build out = some ⟨.ok i, after, written⟩) :
    Counts build (n + 1) after := by
  have executed := executed_of_step (step_of_stepIn succeeded)
  have before := counts.cycles
  constructor
  · rw [executed.cycles, UInt64.toNat_add, UInt64.toNat_one, before, Nat.mod_add_mod]
  · rw [executed.last]
    exact iff_of_false n.succ_ne_zero nofun
  · rintro rfl
    rw [Nat.mod_eq_of_lt (counts.counted rfl)] at before
    rw [← before]
    exact count_lt_of_stepIn succeeded

theorem History.counts (history : History build mem n m) : Counts build n m := by
  induction history with
  | powerOn => exact counts_powerOn build mem
  | load _ _ ih => exact { ih with }
  | executed _ succeeded ih => exact ih.executed succeeded
  | failed _ failed ih =>
    obtain ⟨cycles, last⟩ := counted_of_step_error (step_of_stepIn failed)
    exact ⟨cycles ▸ ih.cycles, last ▸ ih.unused, ih.counted⟩
  | reset _ _ => exact counts_powerOn build _

end ByteMachine.Machine
