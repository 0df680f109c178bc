import ByteMachine.Debugger
import ByteMachine.Proofs.Machine.Run
import ByteMachine.Proofs.Result

/-! A debugger that is given commands in any order. Whatever they are, its machine is
one that was stepped some number of times, and each command carries out one step or none. -/
namespace ByteMachine.Debugger

inductive Command where
  | step
  | run
  | tick
  | toggleBreakpoint
  | pause
  | disassembly (lines : Nat)

def apply (d : Debugger) : Command → Debugger
  | .step => d.step
  | .run => d.run
  | .tick => d.tick
  | .toggleBreakpoint => d.toggleBreakpoint
  | .pause => d.pause
  | .disassembly _ => d

def replay (d : Debugger) (commands : List Command) : Debugger := commands.foldl apply d

def Held (d : Debugger) : Prop := d.machine.regs.pc ∈ d.breakpoints ∧ d.passOver = false

instance (d : Debugger) : Decidable d.Held := inferInstanceAs (Decidable (_ ∧ _))

def Executes (d : Debugger) : Command → Prop
  | .step => d.machine.state = .running
  | .tick => d.running = true ∧ d.machine.state = .running ∧ ¬ d.Held
  | .run | .toggleBreakpoint | .pause | .disassembly _ => False

instance (d : Debugger) : (c : Command) → Decidable (d.Executes c)
  | .step => inferInstanceAs (Decidable (_ = _))
  | .tick => inferInstanceAs (Decidable (_ ∧ _ ∧ _))
  | .run | .toggleBreakpoint | .pause | .disassembly _ => inferInstanceAs (Decidable False)

def executed (d : Debugger) : List Command → Nat
  | [] => 0
  | c :: rest => (if d.Executes c then 1 else 0) + (d.apply c).executed rest

def progress (d : Debugger) : Machine × Array UInt8 := (d.machine, d.output)

theorem replay_append (d : Debugger) (first second : List Command) :
    d.replay (first ++ second) = (d.replay first).replay second := List.foldl_append

theorem executed_append (d : Debugger) (first second : List Command) :
    d.executed (first ++ second) = d.executed first + (d.replay first).executed second := by
  induction first generalizing d with
  | nil => exact (Nat.zero_add _).symm
  | cons c first ih => rw [List.cons_append, executed, ih, executed, Nat.add_assoc]; rfl

theorem isRunning_iff {m : Machine} : m.isRunning = true ↔ m.state = .running := decide_eq_true_iff

theorem tick_of_idle {d : Debugger} (idle : d.running = false) : d.tick = d := by
  simp [tick, idle]

theorem tick_of_stopped {d : Debugger} (ticking : d.running = true)
    (stopped : d.machine.state ≠ .running) :
    d.tick = { d with
      running := false, status := .finished d.machine.state d.machine.cycles } := by
  have halted : d.machine.isRunning = false := decide_eq_false stopped
  simp [tick, ticking, halted]

theorem tick_of_held {d : Debugger} (ticking : d.running = true)
    (running : d.machine.state = .running) (held : d.Held) :
    d.tick = { d with running := false, status := .breakpoint d.machine.regs.pc } := by
  simp [tick, ticking, isRunning_iff.2 running, held.1, held.2]

theorem tick_of_free {d : Debugger} (ticking : d.running = true)
    (running : d.machine.state = .running) (free : ¬ d.Held) :
    d.tick = step { d with passOver := false } := by
  have passes : (d.breakpoints.contains d.machine.regs.pc && !d.passOver) = false := by
    simpa [Held] using free
  simp only [tick, ticking, isRunning_iff.2 running, passes, Bool.not_true, Bool.false_eq_true,
    if_false]

theorem progress_step_of_running {d : Debugger} (running : d.machine.state = .running) :
    d.step.progress = Machine.proceed d.progress := by
  rw [step, if_pos (isRunning_iff.2 running)]
  rcases done : d.machine.step d.output with ⟨_ | _, machine, output⟩ <;>
    simp [progress, Machine.proceed, done]

theorem progress_step_of_stopped {d : Debugger} (stopped : d.machine.state ≠ .running) :
    d.step.progress = d.progress := by
  rw [step, if_neg fun runs => stopped (isRunning_iff.1 runs)]
  rfl

theorem progress_tick (d : Debugger) :
    d.tick.progress = if d.Executes .tick then Machine.proceed d.progress else d.progress := by
  by_cases ticking : d.running = true
  · by_cases running : d.machine.state = .running
    · by_cases held : d.Held
      · rw [if_neg fun executes => executes.2.2 held, tick_of_held ticking running held]
        rfl
      · rw [if_pos ⟨ticking, running, held⟩, tick_of_free ticking running held]
        exact progress_step_of_running (d := { d with passOver := false }) running
    · rw [if_neg fun executes => running executes.2.1, tick_of_stopped ticking running]
      rfl
  · rw [if_neg fun executes => ticking executes.1, tick_of_idle (Bool.eq_false_iff.2 ticking)]

theorem progress_apply (d : Debugger) (c : Command) :
    (d.apply c).progress = if d.Executes c then Machine.proceed d.progress else d.progress := by
  cases c with
  | step =>
    by_cases running : d.machine.state = .running
    · exact (progress_step_of_running running).trans (if_pos running).symm
    · exact (progress_step_of_stopped running).trans (if_neg running).symm
  | tick => exact d.progress_tick
  | toggleBreakpoint =>
    refine Eq.trans ?_ (if_neg id).symm
    rw [apply, toggleBreakpoint]
    split <;> rfl
  | run | pause | disassembly => exact (if_neg id).symm

theorem progress_replay (d : Debugger) (commands : List Command) :
    (d.replay commands).progress = d.machine.after d.output (d.executed commands) := by
  induction commands generalizing d with
  | nil => rfl
  | cons c rest ih =>
    have first := d.progress_apply c
    change ((d.apply c).replay rest).progress = _
    rw [ih, executed]
    by_cases executes : d.Executes c
    · rw [if_pos executes] at first ⊢
      rw [Nat.add_comm, Machine.after, Machine.after, Function.iterate_succ_apply]
      exact congrArg _ first
    · rw [if_neg executes] at first ⊢
      rw [Nat.zero_add, Machine.after, Machine.after]
      exact congrArg _ first

theorem executed_singleton (d : Debugger) (c : Command) :
    d.executed [c] = if d.Executes c then 1 else 0 := Nat.add_zero _

theorem reload_eq_ok_iff {d : Debugger} {machine : Machine} : d.reload = .ok machine ↔
    ∃ blank, d.config.build = .ok blank ∧ blank.load d.program = (.ok (), machine) := by
  simp only [reload, Except.bind_eq_ok_iff, Except.mapError_eq_ok_iff, Except.map_eq_ok_iff]
  constructor
  · rintro ⟨blank, built, ⟨⟩, loaded, rfl⟩
    exact ⟨blank, built, Prod.ext loaded rfl⟩
  · rintro ⟨blank, built, loaded⟩
    exact ⟨blank, built, (), by rw [loaded], by rw [loaded]⟩

theorem progress_reset {d : Debugger} {blank machine : Machine}
    (built : d.config.build = .ok blank) (loaded : blank.load d.program = (.ok (), machine)) :
    d.reset.progress = (machine, #[]) := by
  have reloaded : reload { d with output := #[], running := false } = .ok machine :=
    reload_eq_ok_iff.2 ⟨blank, built, loaded⟩
  simp only [reset, reloaded]
  rfl

/-- After a reset that succeeds the machine is the one that the configuration builds with
the program loaded, stepped as often as commands were given that step it. -/
theorem replay_reset {d : Debugger} {blank machine : Machine}
    (built : d.config.build = .ok blank) (loaded : blank.load d.program = (.ok (), machine))
    (commands : List Command) :
    (d.reset.replay commands).progress = machine.after #[] (d.reset.executed commands) ∧
    ∀ c, d.reset.executed (commands ++ [c]) = d.reset.executed commands +
      if (d.reset.replay commands).Executes c then 1 else 0 := by
  have start := progress_reset built loaded
  obtain ⟨same, empty⟩ := Prod.mk.inj start
  constructor
  · rw [progress_replay, same, empty]
  · intro c
    rw [executed_append, executed_singleton]

/-- Eight cells for a program that counts to one, prints it and halts, and a breakpoint at
the second instruction, in the middle of something else. -/
def printingOne : Debugger :=
  ⟨.fresh, [0x78, 0, 0x43, 0, 0x01], ⟨8, 0, .raw, 0⟩, #[7], [2], true, .running, 3, false⟩

def printingOneLoaded : Machine :=
  ⟨⟨#v[0, 0, 0, 0, 0, 0, 0, 0], 0, 0, 0⟩, ⟨#[0x78, 0, 0x43, 0, 0x01, 0, 0, 0], by decide⟩,
    .running, 0, none⟩

/-- The run is held up at the breakpoint, goes on by hand, and is resumed. -/
theorem replay_reset_printingOne :
    printingOne.config.build = .ok (.powerOn (.zeros 8 (by decide))) ∧
    (Machine.powerOn (.zeros 8 (by decide))).load printingOne.program = (.ok (), printingOneLoaded) ∧
    (printingOne.reset.replay [.run, .tick, .tick, .pause, .step, .toggleBreakpoint, .run, .tick,
      .tick]).progress = printingOneLoaded.after #[] 3 := by
  have built : printingOne.config.build = .ok (.powerOn (.zeros 8 (by decide))) := rfl
  have loaded : (Machine.powerOn (.zeros 8 (by decide))).load printingOne.program =
      (.ok (), printingOneLoaded) := rfl
  exact ⟨built, loaded, (replay_reset built loaded _).1⟩

end ByteMachine.Debugger
