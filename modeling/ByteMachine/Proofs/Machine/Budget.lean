import ByteMachine.Proofs.Machine.Run
import ByteMachine.Proofs.Result

/-! Runs with a budget. A budget is turned into a bound on the count of instructions when
a run begins, and the count grows with each step that succeeds, so the budget is what may
still be counted, unless the bound is too large for a word: then it is below the count, and
no step is made. Two runs in a row come to one with both budgets, and a run without a budget
comes to one with any budget that is large enough. -/
namespace ByteMachine.Machine
variable {σ : Type} [Sink σ] {m : Machine} {out : σ}

theorem running_of_step_ok {after : Machine} {written : σ} {i : Instruction}
    (succeeded : m.step out = ⟨.ok i, after, written⟩) : m.state = .running := by
  by_contra stopped
  rw [step_of_stopped stopped] at succeeded
  cases succeeded

/-! ### Up to a count -/

theorem advance_of_ok {after : Machine} {written : σ} {i : Instruction}
    (succeeded : m.step out = ⟨.ok i, after, written⟩) (budget : Nat) :
    advance (budget + 1) m out = advance budget after written := by
  rw [advance, if_pos (running_of_step_ok succeeded), succeeded]

theorem advance_of_error {after : Machine} {written : σ} {f : Fault}
    (running : m.state = .running) (failed : m.step out = ⟨.error f, after, written⟩)
    (budget : Nat) : advance (budget + 1) m out = ⟨.error f, after, written⟩ := by
  rw [advance, if_pos running, failed]

theorem advanceTo_eq (limit : UInt64) (m : Machine) (out : σ) :
    m.advanceTo limit out = advance (limit.toNat - m.cycles.toNat) m out := by
  generalize left : limit.toNat - m.cycles.toNat = n
  induction n generalizing m out with
  | zero =>
    rw [advanceTo, advance, dif_neg]
    intro ready
    have below := UInt64.lt_iff_toNat_lt.1 ready.2
    omega
  | succ n ih =>
    by_cases running : m.state = .running
    · have below : m.cycles < limit := UInt64.lt_iff_toNat_lt.2 (by omega)
      rw [advanceTo, dif_pos ⟨running, below⟩]
      split
      · next after written done =>
        have counted : after.cycles.toNat = m.cycles.toNat + 1 := by
          rw [cycles_step_ok done, toNat_add_one below]
        rw [advance_of_ok done]
        exact ih after written (by omega)
      · next done => rw [advance_of_error running done]
    · rw [advanceTo, dif_neg fun ready => running ready.1, advance_of_stopped running]

/-- How many steps a run with a budget may make. -/
def allowance (m : Machine) (budget : UInt64) : Nat :=
  (m.cycles + budget).toNat - m.cycles.toNat

theorem allowance_of_fits {budget : UInt64} (fits : m.cycles.toNat + budget.toNat < 2 ^ 64) :
    m.allowance budget = budget.toNat := by
  rw [allowance, UInt64.toNat_add, Nat.mod_eq_of_lt fits, Nat.add_sub_cancel_left]

theorem allowance_of_large {budget : UInt64} (large : 2 ^ 64 ≤ m.cycles.toNat + budget.toNat) :
    m.allowance budget = 0 := by
  have count := m.cycles.toNat_lt
  have bound := budget.toNat_lt
  rw [allowance, UInt64.toNat_add]
  omega

theorem allowance_le (m : Machine) (budget : UInt64) : m.allowance budget ≤ budget.toNat := by
  rcases Nat.lt_or_ge (m.cycles.toNat + budget.toNat) (2 ^ 64) with fits | large
  · rw [allowance_of_fits fits]
  · rw [allowance_of_large large]
    exact Nat.zero_le _

theorem runLimited_eq (m : Machine) (out : σ) (budget : UInt64) :
    m.runLimited budget out = (advance (m.allowance budget) m out).counted m.cycles := by
  rw [runLimited, advanceTo_eq, allowance]

/-! ### Step by step -/

theorem running_succ {after : Machine} {written : σ} {i : Instruction} {n : Nat}
    (succeeded : m.step out = ⟨.ok i, after, written⟩)
    (rest : ∀ k < n, (after.after written k).1.state = .running) :
    ∀ k < n + 1, (m.after out k).1.state = .running := by
  intro k less
  cases k with
  | zero => exact running_of_step_ok succeeded
  | succ k =>
    rw [after_succ_eq, succeeded]
    exact rest k (Nat.lt_of_succ_lt_succ less)

/-- What a run comes to that ends with its `n`-th step: the number of instructions, unless
that step failed. -/
def resultAfter (m : Machine) (out : σ) : Nat → Except Fault UInt64
  | 0 => .ok 0
  | n + 1 => ((m.after out n).1.step (m.after out n).2).result.map fun _ => UInt64.ofNat (n + 1)

theorem resultAfter_ok {n : Nat} {count : UInt64} (counted : m.resultAfter out n = .ok count) :
    count = UInt64.ofNat n := by
  cases n with
  | zero =>
    cases counted
    rfl
  | succ n =>
    obtain ⟨_, -, rfl⟩ := Except.map_eq_ok_iff.1 counted
    rfl

structure Runs (m : Machine) (out : σ) (n : Nat) (finish : Outcome σ Unit) : Prop where
  running : ∀ k < n, (m.after out k).1.state = .running
  now : (finish.machine, finish.out) = m.after out n
  result : finish.result = (m.resultAfter out n).map fun _ => ()
  cycles : finish.result = .ok () → finish.machine.cycles = m.cycles + UInt64.ofNat n

namespace Runs

theorem none (m : Machine) (out : σ) : m.Runs out 0 ⟨.ok (), m, out⟩ where
  running := fun k less => absurd less (Nat.not_lt_zero k)
  now := rfl
  result := rfl
  cycles := fun _ => (UInt64.add_zero m.cycles).symm

theorem failed {after : Machine} {written : σ} {f : Fault} (running : m.state = .running)
    (failed : m.step out = ⟨.error f, after, written⟩) :
    m.Runs out 1 ⟨.error f, after, written⟩ where
  running := fun k less => by
    cases Nat.lt_one_iff.1 less
    exact running
  now := by
    rw [after_succ_eq, failed]
    rfl
  result := by
    have start : m.after out 0 = (m, out) := rfl
    simp only [resultAfter, start, failed, Except.map]
  cycles := fun ok => nomatch ok

theorem succ {after : Machine} {written : σ} {i : Instruction} {n : Nat} {finish : Outcome σ Unit}
    (succeeded : m.step out = ⟨.ok i, after, written⟩) (rest : after.Runs written n finish) :
    m.Runs out (n + 1) finish where
  running := running_succ succeeded rest.running
  now := by
    rw [rest.now, after_succ_eq, succeeded]
  result := by
    rw [rest.result]
    cases n with
    | zero =>
      have start : m.after out 0 = (m, out) := rfl
      simp only [resultAfter, start, succeeded, Except.map]
    | succ n =>
      simp only [resultAfter, after_succ_eq m, succeeded]
      cases ((after.after written n).1.step (after.after written n).2).result <;> rfl
  cycles := fun ok => by
    rw [rest.cycles ok, cycles_step_ok succeeded, UInt64.add_assoc, Nat.add_comm,
      UInt64.ofNat_add]
    rfl

theorem counted {n : Nat} {finish : Outcome σ Unit} (runs : m.Runs out n finish) :
    finish.counted m.cycles = ⟨m.resultAfter out n, finish.machine, finish.out⟩ := by
  rw [Outcome.counted, runs.result]
  cases ended : m.resultAfter out n with
  | error f => rfl
  | ok count =>
    have cycles := runs.cycles (by rw [runs.result, ended]; rfl)
    cases resultAfter_ok ended
    rw [cycles, UInt64.add_comm, UInt64.add_sub_cancel]
    rfl

theorem stopped {n : Nat} {finish : Outcome σ Unit} {f : Fault} (runs : m.Runs out n finish)
    (failed : finish.result = .error f) : finish.machine.state ≠ .running := by
  have result := runs.result.symm.trans failed
  have machine : finish.machine = (m.after out n).1 := congrArg Prod.fst runs.now
  cases n with
  | zero => cases result
  | succ n =>
    rw [machine, after_succ]
    rcases done : (m.after out n).1.step (m.after out n).2 with ⟨e | i, after, written⟩
    · rw [proceed, done]
      exact stopped_of_step_error done
    · rw [resultAfter, done] at result
      cases result

end Runs

theorem advance_runs (budget : Nat) (m : Machine) (out : σ) :
    ∃ n ≤ budget, (n < budget → (m.after out n).1.state ≠ .running) ∧
      m.Runs out n (advance budget m out) := by
  induction budget generalizing m out with
  | zero => exact ⟨0, Nat.le_refl 0, fun less => absurd less (Nat.not_lt_zero 0), .none m out⟩
  | succ budget ih =>
    by_cases running : m.state = .running
    · rcases done : m.step out with ⟨f | i, after, written⟩
      · refine ⟨1, by omega, fun _ => ?_, ?_⟩
        · rw [after_succ_eq, done]
          exact stopped_of_step_error done
        · rw [advance_of_error running done]
          exact .failed running done
      · obtain ⟨n, le, stops, runs⟩ := ih after written
        refine ⟨n + 1, Nat.succ_le_succ le, fun less => ?_, ?_⟩
        · rw [after_succ_eq, done]
          exact stops (Nat.lt_of_succ_lt_succ less)
        · rw [advance_of_ok done]
          exact runs.succ done
    · refine ⟨0, Nat.zero_le _, fun _ => running, ?_⟩
      rw [advance_of_stopped running]
      exact .none m out

/-- As many steps are made as the budget and the life of the machine allow. -/
theorem runLimited_after (m : Machine) (out : σ) (budget : UInt64) :
    ∃ n : Nat, (n : ℕ∞) = min (m.allowance budget : ℕ∞) (m.lifetime out) ∧
      m.runLimited budget out = ⟨m.resultAfter out n, (m.after out n).1, (m.after out n).2⟩ := by
  obtain ⟨n, le, stops, runs⟩ := advance_runs (m.allowance budget) m out
  refine ⟨n, ?_, ?_⟩
  · have running : ∀ k < n, ¬ (m.after out k).1.state ≠ .running :=
      fun k less stopped => stopped (runs.running k less)
    rcases Nat.lt_or_eq_of_le le with less | rfl
    · rw [lifetime, firstTime_eq (stops less) running, min_eq_right (Nat.cast_le.2 le)]
    · exact (min_eq_left (le_firstTime_iff.2 running)).symm
  · rw [runLimited_eq, runs.counted, ← runs.now]

theorem advance_progress (m : Machine) (out : σ) (budget : Nat) :
    ((advance budget m out).machine, (advance budget m out).out) = m.after out budget := by
  induction budget generalizing m out with
  | zero => rfl
  | succ budget ih =>
    by_cases running : m.state = .running
    · rw [after_succ_eq]
      rcases done : m.step out with ⟨f | i, now, written⟩
      · rw [advance_of_error running done, after_of_stopped (stopped_of_step_error done)]
      · rw [advance_of_ok done]
        exact ih now written
    · rw [advance_of_stopped running, after_of_stopped running]

theorem runLimited_progress (m : Machine) (out : σ) (budget : UInt64) :
    ((m.runLimited budget out).machine, (m.runLimited budget out).out) =
      m.after out (m.allowance budget) := by
  rw [runLimited_eq]
  exact m.advance_progress out _

/-! ### One run after another -/

theorem advance_add (m : Machine) (out : σ) (a b : Nat) :
    advance (a + b) m out =
      match advance a m out with
      | ⟨.ok _, m, out⟩ => advance b m out
      | ⟨.error f, m, out⟩ => ⟨.error f, m, out⟩ := by
  induction a generalizing m out with
  | zero => rw [Nat.zero_add, advance]
  | succ a ih =>
    rw [Nat.add_right_comm]
    by_cases running : m.state = .running
    · rcases done : m.step out with ⟨f | i, after, written⟩
      · rw [advance_of_error running done, advance_of_error running done]
      · rw [advance_of_ok done, advance_of_ok done, ih]
    · rw [advance_of_stopped running, advance_of_stopped running]
      exact (advance_of_stopped running b out).symm

/-! ### Without a budget -/

theorem advance_of_finish? {finish : Outcome σ Unit} (ends : m.finish? out = some finish) :
    ∃ n, (m.after out n).1.state ≠ .running ∧ (∀ k < n, (m.after out k).1.state = .running) ∧
      ∀ budget ≥ n, advance budget m out = finish := by
  revert m out finish
  apply finish?.partial_correctness
  intro finish? ih m out finish ends
  split at ends
  · next running =>
    split at ends
    · next done =>
      obtain ⟨n, stopped, before, same⟩ := ih _ _ _ ends
      refine ⟨n + 1, ?_, running_succ done before, fun budget le => ?_⟩
      · rw [after_succ_eq, done]
        exact stopped
      · obtain ⟨budget, rfl⟩ := Nat.exists_eq_add_of_le' le
        rw [← Nat.add_assoc, advance_of_ok done]
        exact same _ (Nat.le_add_left _ _)
    · next done =>
      cases ends
      refine ⟨1, ?_, fun k less => ?_, fun budget le => ?_⟩
      · rw [after_succ_eq, done]
        exact stopped_of_step_error done
      · cases Nat.lt_one_iff.1 less
        exact running
      · obtain ⟨budget, rfl⟩ := Nat.exists_eq_add_of_le' le
        exact advance_of_error running done budget
  · next stopped =>
    cases ends
    exact ⟨0, stopped, fun k less => absurd less (Nat.not_lt_zero k),
      fun budget _ => advance_of_stopped stopped budget out⟩

theorem finish?_isSome {n : Nat} (stopped : (m.after out n).1.state ≠ .running) :
    (m.finish? out).isSome := by
  induction n generalizing m out with
  | zero =>
    have now : m.state ≠ .running := stopped
    rw [finish?, if_neg now]
    rfl
  | succ n ih =>
    rw [finish?]
    split
    · rw [after_succ_eq] at stopped
      rcases done : m.step out with ⟨f | i, after, written⟩
      · rfl
      · rw [done] at stopped
        exact ih stopped
    · rfl

theorem run?_isSome_iff (m : Machine) (out : σ) : (m.run? out).isSome ↔ m.lifetime out ≠ ⊤ := by
  rw [run?, Option.isSome_map]
  constructor
  · intro ends
    obtain ⟨finish, ends⟩ := Option.isSome_iff_exists.1 ends
    obtain ⟨n, stopped, before, -⟩ := advance_of_finish? ends
    rw [lifetime, firstTime_eq stopped fun k less stopped => stopped (before k less)]
    exact ENat.natCast_ne_top n
  · intro short
    obtain ⟨n, stopped⟩ : ∃ n, (m.after out n).1.state ≠ .running := by
      by_contra never
      refine short (ENat.eq_top_iff_forall_ge.2 fun n => le_firstTime_iff.2 fun k _ stopped => ?_)
      exact never ⟨k, stopped⟩
    exact finish?_isSome stopped

theorem run?_runLimited {finish : Outcome σ UInt64} (ends : m.run? out = some finish) :
    finish.machine.state ≠ .running ∧
      ∃ n : Nat, m.lifetime out = n ∧ (finish.machine, finish.out) = m.after out n ∧
        ∀ budget, n ≤ m.allowance budget → m.runLimited budget out = finish := by
  obtain ⟨last, ended, rfl⟩ := Option.map_eq_some_iff.1 ends
  obtain ⟨n, stopped, before, same⟩ := advance_of_finish? ended
  have lifetime : m.lifetime out = n :=
    firstTime_eq stopped fun k less stopped => stopped (before k less)
  have steps : (last.machine, last.out) = m.after out n := by
    rw [← m.advance_progress out n, same n (Nat.le_refl n)]
  have machine : last.machine = (m.after out n).1 := congrArg Prod.fst steps
  refine ⟨?_, n, lifetime, steps, fun budget le => by rw [runLimited_eq, same _ le]⟩
  exact fun running => stopped (machine ▸ running)

/-! ### Budgets add up -/

section
variable {a b : UInt64} (fits : m.cycles.toNat + a.toNat + b.toNat < 2 ^ 64)
include fits

theorem allowance_add : m.allowance (a + b) = m.allowance a + b.toNat := by
  have both : (a + b).toNat = a.toNat + b.toNat := by
    rw [UInt64.toNat_add]
    exact Nat.mod_eq_of_lt (by omega)
  rw [allowance_of_fits (by omega), allowance_of_fits (by omega), both]

theorem allowance_of_runs {n : Nat} {now : Machine} (few : n ≤ m.allowance a)
    (counted : now.cycles = m.cycles + UInt64.ofNat n) : now.allowance b = b.toNat := by
  rw [allowance_of_fits (by omega)] at few
  apply allowance_of_fits
  rw [counted, UInt64.toNat_add, UInt64.toNat_ofNat']
  omega

theorem runLimited_add_of_error {after : Machine} {written : σ} {f : Fault}
    (failed : m.runLimited a out = ⟨.error f, after, written⟩) :
    m.runLimited (a + b) out = ⟨.error f, after, written⟩ ∧
      after.runLimited b written = ⟨.ok 0, after, written⟩ := by
  obtain ⟨n, -, -, runs⟩ := advance_runs (m.allowance a) m out
  rw [runLimited_eq] at failed
  simp only [runLimited_eq, allowance_add fits, advance_add]
  rcases first : advance (m.allowance a) m out with ⟨e | _, now, sink⟩ <;> rw [first] at failed runs
  · cases failed
    rw [advance_of_stopped (runs.stopped rfl)]
    exact ⟨rfl, (Runs.none now sink).counted⟩
  · cases failed

theorem runLimited_add_of_ok {i : UInt64} {after : Machine} {written : σ}
    (succeeded : m.runLimited a out = ⟨.ok i, after, written⟩) :
    m.runLimited (a + b) out = { after.runLimited b written with
      result := (after.runLimited b written).result.map (i + ·) } := by
  obtain ⟨n, few, -, runs⟩ := advance_runs (m.allowance a) m out
  rw [runLimited_eq] at succeeded
  simp only [runLimited_eq, allowance_add fits, advance_add]
  rcases first : advance (m.allowance a) m out with ⟨e | _, now, sink⟩ <;>
    rw [first] at succeeded runs
  · cases succeeded
  · cases succeeded
    have before : now.cycles = m.cycles + UInt64.ofNat n := runs.cycles rfl
    rw [allowance_of_runs fits few before]
    obtain ⟨k, -, -, rest⟩ := advance_runs b.toNat now sink
    rcases second : advance b.toNat now sink with ⟨f | _, last, written⟩
    · simp only [second]
      rfl
    · -- The second run counts from where the first has left the count.
      have total : last.cycles - m.cycles =
          (now.cycles - m.cycles) + (last.cycles - now.cycles) := by grind
      simp only [second, Outcome.counted, Except.map, total]

end

/-- Two runs in a row, with the same sink, come to one run with both budgets: it leaves the
machine and the sink that the second leaves, fails as the first that fails, and executes as
many instructions as both. A run makes as many steps as its budget and the life of the machine
allow. One without a budget ends if the machine stops some time, and then comes to the same
as every run with a budget that suffices. -/
theorem runLimited_compose {m : Machine} {a b : UInt64}
    (fits : m.cycles.toNat + a.toNat + b.toNat < 2 ^ 64) (out : σ) :
    let first := m.runLimited a out
    let second := first.machine.runLimited b first.out
    let whole := m.runLimited (a + b) out
    (whole.machine = second.machine ∧ whole.out = second.out) ∧
    (∀ f, first.result = .error f →
      whole.result = .error f ∧ second = ⟨.ok 0, first.machine, first.out⟩) ∧
    (∀ i j, first.result = .ok i → second.result = .ok j → whole.result = .ok (i + j)) ∧
    (∀ f, second.result = .error f → whole.result = .error f) ∧
    (∃ n : Nat, (n : ℕ∞) = min (a.toNat : ℕ∞) (m.lifetime out) ∧
      first = ⟨m.resultAfter out n, (m.after out n).1, (m.after out n).2⟩) ∧
    ((m.run? out).isSome ↔ m.lifetime out ≠ ⊤) ∧
    (∀ finish, m.run? out = some finish →
      m.run out = finish ∧ finish.machine.state ≠ .running ∧
      ∃ n : Nat, m.lifetime out = n ∧ (finish.machine, finish.out) = m.after out n ∧
        ∀ budget : UInt64, n ≤ budget.toNat → m.cycles.toNat + budget.toNat < 2 ^ 64 →
          m.runLimited budget out = finish) := by
  intro first second whole
  have alike : ∀ finish, m.run? out = some finish →
      m.run out = finish ∧ finish.machine.state ≠ .running ∧
      ∃ n : Nat, m.lifetime out = n ∧ (finish.machine, finish.out) = m.after out n ∧
        ∀ budget : UInt64, n ≤ budget.toNat → m.cycles.toNat + budget.toNat < 2 ^ 64 →
          m.runLimited budget out = finish := by
    intro finish ends
    obtain ⟨stopped, n, lifetime, steps, same⟩ := run?_runLimited ends
    refine ⟨by rw [run, ends, Option.getD_some], stopped, n, lifetime, steps, ?_⟩
    exact fun budget le room => same budget (le.trans_eq (allowance_of_fits room).symm)
  have steps := m.runLimited_after out a
  rw [allowance_of_fits (Nat.lt_of_le_of_lt (Nat.le_add_right _ _) fits)] at steps
  have ends := m.run?_isSome_iff out
  simp only [first, second, whole]
  rcases done : m.runLimited a out with ⟨f | i, after, written⟩ <;> rw [done] at steps
  · obtain ⟨together, rest⟩ := runLimited_add_of_error fits done
    rw [together, rest]
    refine ⟨⟨rfl, rfl⟩, ?_, ?_, ?_, steps, ends, alike⟩
    · exact fun e failed => ⟨failed, rfl⟩
    · exact fun i j succeeded => nomatch succeeded
    · exact fun e failed => nomatch failed
  · rw [runLimited_add_of_ok fits done]
    refine ⟨⟨rfl, rfl⟩, ?_, ?_, ?_, steps, ends, alike⟩
    · exact fun e failed => nomatch failed
    · rintro _ j ⟨⟩ succeeded
      rw [succeeded]
      rfl
    · intro e failed
      rw [failed]
      rfl

def dividing : Machine :=
  ⟨⟨#v[6, 0, 0, 0, 0, 0, 0, 0], 0, 0, 0⟩, ⟨#[0x43, 0, 0x78, 0, 0xAB, 0, 1, 0x01], by decide⟩,
    .running, 0, none⟩

/-- The first run ends with its budget and the second with the division. -/
theorem runLimited_compose_dividing :
    let out := Printer.ofPresentation .decimal
    let first := dividing.runLimited 2 out
    let second := first.machine.runLimited 5 first.out
    let whole := dividing.runLimited (2 + 5) out
    dividing.cycles.toNat + (2 : UInt64).toNat + (5 : UInt64).toNat < 2 ^ 64 ∧
      first.result = .ok 2 ∧ first.machine.regs.pc = 4 ∧ first.out.written = #[54, 10] ∧
      second.result = .error .divisionByZero ∧ whole.result = .error .divisionByZero ∧
      whole.machine = second.machine ∧ whole.out = second.out := by
  intro out first second whole
  have fits : dividing.cycles.toNat + (2 : UInt64).toNat + (5 : UInt64).toNat < 2 ^ 64 := by decide
  obtain ⟨⟨machine, sink⟩, -, -, failure, -⟩ := runLimited_compose fits out
  have failed : second.result = .error .divisionByZero := by
    simp only [second, first, out, runLimited_eq]
    decide +kernel
  have begins : first.result = .ok 2 ∧ first.machine.regs.pc = 4 ∧
      first.out.written = #[54, 10] := by
    simp only [first, out, runLimited_eq]
    decide +kernel
  exact ⟨fits, begins.1, begins.2.1, begins.2.2, failed, failure _ failed, machine, sink⟩

end ByteMachine.Machine
