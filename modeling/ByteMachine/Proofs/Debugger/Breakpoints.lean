import ByteMachine.Proofs.Debugger.Commands

/-! A run of the debugger, tick after tick. It ends when the machine has stopped, or
before an instruction at a breakpoint unless that is the first one of the run. -/
namespace ByteMachine.Debugger
variable {d now : Debugger} {n : Nat}

def resume (n : Nat) : List Command := .run :: List.replicate n .tick

theorem resume_succ (n : Nat) : resume (n + 1) = resume n ++ [.tick] := by
  rw [resume, List.replicate_succ']
  rfl

def machineAfter (d : Debugger) (n : Nat) : Machine := (d.machine.after d.output n).1

def Arrives (d : Debugger) (n : Nat) : Prop :=
  1 ≤ n ∧ (d.machineAfter n).state = .running ∧ (d.machineAfter n).regs.pc ∈ d.breakpoints

noncomputable def distance (d : Debugger) : ℕ∞ := firstTime d.Arrives

def Ends (d : Debugger) (n : Nat) : Prop := (d.machineAfter n).state ≠ .running ∨ d.Arrives n

/-- That a run has made `n` steps and was not held up. -/
structure Going (d : Debugger) (n : Nat) (now : Debugger) : Prop where
  progress : now.progress = d.machine.after d.output n
  breakpoints : now.breakpoints = d.breakpoints
  passOver : now.passOver = decide (n = 0)
  running : now.machine.state = .running → now.running = true

theorem step_breakpoints (d : Debugger) : d.step.breakpoints = d.breakpoints := by
  unfold step
  split
  · split <;> rfl
  · rfl

theorem step_passOver (d : Debugger) : d.step.passOver = d.passOver := by
  unfold step
  split
  · split <;> rfl
  · rfl

theorem step_running (running : d.step.machine.state = .running) : d.step.running = d.running := by
  unfold step at running ⊢
  split
  · next runs =>
    rw [if_pos runs] at running
    rcases done : d.machine.step d.output with ⟨f | i, machine, output⟩
    · rw [done] at running
      exact absurd running (Machine.stopped_of_step_error done)
    · rfl
  · next stopped =>
    rw [if_neg stopped] at running
    exact absurd (isRunning_iff.2 running) stopped

theorem going_run (d : Debugger) : d.Going 0 d.run := ⟨rfl, rfl, rfl, fun _ => rfl⟩

namespace Going

theorem machine (going : d.Going n now) : now.machine = d.machineAfter n :=
  congrArg Prod.fst going.progress

theorem held_iff (going : d.Going n now) :
    now.Held ↔ 1 ≤ n ∧ (d.machineAfter n).regs.pc ∈ d.breakpoints := by
  rw [Held, going.machine, going.breakpoints, going.passOver, decide_eq_false_iff_not,
    Nat.one_le_iff_ne_zero, and_comm]

theorem tick (going : d.Going n now) (goesOn : ¬ d.Ends n) :
    now.Executes .tick ∧ d.Going (n + 1) now.tick := by
  have running : now.machine.state = .running := by
    rw [going.machine]
    exact Decidable.not_not.1 fun stopped => goesOn (.inl stopped)
  have free : ¬ now.Held := fun held => by
    obtain ⟨later, hit⟩ := going.held_iff.1 held
    exact goesOn (.inr ⟨later, going.machine ▸ running, hit⟩)
  have ticking := going.running running
  have executes : now.Executes .tick := ⟨ticking, running, free⟩
  have moved := now.progress_tick
  rw [if_pos executes, going.progress, ← Machine.after_succ] at moved
  refine ⟨executes, moved, ?_, ?_, fun still => ?_⟩
  · rw [tick_of_free ticking running free, step_breakpoints, going.breakpoints]
  · rw [tick_of_free ticking running free, step_passOver]
    rfl
  · rw [tick_of_free ticking running free] at still ⊢
    rw [step_running still]
    exact ticking

theorem tick_of_ends (going : d.Going n now) (ends : d.Ends n) :
    ¬ now.Executes .tick ∧ now.tick.running = false := by
  by_cases ticking : now.running = true
  · by_cases running : now.machine.state = .running
    · have held : now.Held := by
        rcases ends with stopped | ⟨later, -, hit⟩
        · exact absurd (going.machine ▸ running) stopped
        · exact going.held_iff.2 ⟨later, hit⟩
      exact ⟨fun executes => executes.2.2 held, by rw [tick_of_held ticking running held]⟩
    · exact ⟨fun executes => running executes.2.1, by rw [tick_of_stopped ticking running]⟩
  · have idle : now.running = false := Bool.eq_false_iff.2 ticking
    exact ⟨fun executes => ticking executes.1, by rw [tick_of_idle idle, idle]⟩

end Going

theorem going_resume (goesOn : ∀ k < n, ¬ d.Ends k) :
    d.executed (resume n) = n ∧ d.Going n (d.replay (resume n)) := by
  induction n with
  | zero => exact ⟨rfl, d.going_run⟩
  | succ n ih =>
    obtain ⟨count, going⟩ := ih fun k less => goesOn k (Nat.lt_succ_of_lt less)
    obtain ⟨executes, further⟩ := going.tick (goesOn n (Nat.lt_succ_self n))
    rw [resume_succ, executed_append, replay_append, executed_singleton, if_pos executes, count]
    exact ⟨rfl, further⟩

theorem replay_ticks_of_idle (idle : d.running = false) (m : Nat) :
    d.replay (List.replicate m .tick) = d ∧ d.executed (List.replicate m .tick) = 0 := by
  induction m with
  | zero => exact ⟨rfl, rfl⟩
  | succ m ih =>
    have silent : ¬ d.Executes .tick := fun executes => by simp [executes.1] at idle
    have same : d.apply .tick = d := tick_of_idle idle
    rw [List.replicate_succ, executed, if_neg silent, same]
    exact ⟨(congrArg (replay · _) same).trans ih.1, by rw [ih.2]⟩

theorem resume_of_ends {k : Nat} (goesOn : ∀ j < k, ¬ d.Ends j) (ends : d.Ends k) (less : k < n) :
    d.executed (resume n) = k ∧ (d.replay (resume n)).running = false := by
  obtain ⟨m, rfl⟩ := Nat.exists_eq_add_of_lt less
  obtain ⟨count, going⟩ := going_resume goesOn
  obtain ⟨silent, stopped⟩ := going.tick_of_ends ends
  have split : resume (k + m + 1) = resume k ++ (.tick :: List.replicate m .tick) := by
    rw [resume, Nat.add_assoc, List.replicate_add, List.replicate_succ]
    rfl
  obtain ⟨same, none⟩ := replay_ticks_of_idle stopped m
  rw [split, executed_append, replay_append, count, executed, if_neg silent]
  exact ⟨congrArg (fun rest => k + (0 + rest)) none, (congrArg running same).trans stopped⟩

/-- A run by ticks makes a step with each, up to the first of three bounds: the ticks, the
life of the machine, and the way to a breakpoint. It passes over a breakpoint with its first
step only, ends before the instruction at the next, and then stays as it is. -/
theorem run_ticks (d : Debugger) (n : Nat) :
    let steps := d.executed (resume n)
    let bound := min (d.machine.lifetime d.output) d.distance
    let now := d.replay (resume n)
    steps = min (n : ℕ∞) bound ∧
    now.progress = d.machine.after d.output steps ∧
    (∀ k, 1 ≤ k → k < steps → (d.machineAfter k).regs.pc ∉ d.breakpoints) ∧
    (d.distance < d.machine.lifetime d.output → d.distance < n →
      now.machine.state = .running ∧ now.machine.regs.pc ∈ d.breakpoints) ∧
    (bound < n → now.running = false) ∧
    (now.running = false → ∀ m, now.replay (List.replicate m .tick) = now) := by
  intro steps bound now
  have progress : now.progress = d.machine.after d.output steps := d.progress_replay (resume n)
  have machine : now.machine = d.machineAfter steps := congrArg Prod.fst progress
  have joint : bound = firstTime d.Ends := min_firstTime _ _
  have idle : now.running = false → ∀ m, now.replay (List.replicate m .tick) = now :=
    fun stopped m => (replay_ticks_of_idle stopped m).1
  have passes : ∀ k, 1 ≤ k → ¬ d.Ends k → (d.machineAfter k).regs.pc ∉ d.breakpoints :=
    fun k later goesOn hit => goesOn <| Classical.or_iff_not_imp_left.2 fun runs =>
      ⟨later, Decidable.not_not.1 runs, hit⟩
  by_cases some : ∃ k, k < n ∧ d.Ends k
  · classical
    obtain ⟨less, ends⟩ := Nat.find_spec some
    have goesOn : ∀ j < Nat.find some, ¬ d.Ends j := fun j earlier ends =>
      Nat.find_min some earlier ⟨Nat.lt_trans earlier less, ends⟩
    obtain ⟨count, stopped⟩ := resume_of_ends goesOn ends less
    have last : bound = steps := by
      rw [joint, firstTime_eq ends goesOn, ← count]
    have within : bound ≤ n := by
      rw [last, Nat.cast_le]
      omega
    refine ⟨?_, progress, fun k later less => ?_, fun nearer _ => ?_, fun _ => stopped, idle⟩
    · rw [min_eq_right within, last]
    · exact passes k later (goesOn k (count ▸ less))
    · rw [← count] at ends
      rw [machine]
      rcases ends with stopped | ⟨-, running, hit⟩
      · have lived : d.machine.lifetime d.output ≤ bound := last ▸ iInf₂_le steps stopped
        exact absurd nearer (not_lt.2 (lived.trans (min_le_right _ _)))
      · exact ⟨running, hit⟩
  · have goesOn : ∀ k < n, ¬ d.Ends k := fun k less ends => some ⟨k, less, ends⟩
    have count : steps = n := (going_resume goesOn).1
    have beyond : n ≤ bound := joint ▸ le_firstTime_iff.2 goesOn
    refine ⟨?_, progress, fun k later less => ?_, fun _ nearer => ?_, fun before => ?_, idle⟩
    · rw [min_eq_left beyond, count]
    · exact passes k later (goesOn k (count ▸ less))
    · exact absurd nearer (not_lt.2 (beyond.trans (min_le_right _ _)))
    · exact absurd before (not_lt.2 beyond)

end ByteMachine.Debugger
