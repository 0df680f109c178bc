import ByteMachine.Proofs.Debugger.Breakpoints
import ByteMachine.Proofs.Image
import ByteMachine.Proofs.Machine.Budget
import ByteMachine.Session

/-! The ways to drive a machine: a run with a budget, a session that runs or is stepped, and a
debugger that ticks. They stop for different reasons, but a machine that has stopped stays as it
is, so each comes to the machine that is stepped as often as the budget allows. -/
namespace ByteMachine

namespace Session

def progress (s : Session) : Machine × Array UInt8 := (s.machine, s.output)

def steps : Nat → Session → Session
  | 0, s => s
  | n + 1, s => if s.machine.isRunning then steps n s.step.2 else s

inductive Loaded (program : List UInt8) : Session → Prop
  | source (s : Session) {source : String} (assembled : assemble source = .ok program) :
    Loaded program (s.loadSource source).2
  | image (s : Session) {text : String} {image : Image}
    (parsed : Image.parse text.toList = .ok image) (bytes : image.bytes = program) :
    Loaded program (s.loadImage text).2

variable {program : List UInt8} {m : Machine}

theorem load_of_fits (placed : Machine.fresh.load program = (.ok (), m)) (s : Session) :
    s.load program = (.ok program.length, ⟨m, program, #[]⟩) := by
  simp only [load, reset, placed]
  rfl

theorem Loaded.progress_eq {s : Session} (loaded : Loaded program s)
    (placed : Machine.fresh.load program = (.ok (), m)) : s.progress = (m, #[]) := by
  cases loaded with
  | source s assembled =>
    rw [loadSource, assembled]
    exact congrArg (fun done => done.2.progress) (load_of_fits placed s)
  | image s parsed bytes =>
    rw [loadImage, parsed]
    cases bytes
    exact congrArg (fun done => done.2.progress) (load_of_fits placed s)

theorem progress_run (s : Session) (budget : UInt32) : (s.run budget).2.progress =
    s.machine.after s.output (s.machine.allowance budget.toUInt64) :=
  s.machine.runLimited_progress s.output budget.toUInt64

theorem progress_steps (n : Nat) (s : Session) :
    (steps n s).progress = s.machine.after s.output n := by
  induction n generalizing s with
  | zero => rfl
  | succ n ih =>
    rw [steps]
    split
    · exact ih s.step.2
    · next stopped =>
      rw [Machine.after_of_stopped fun running => stopped (Debugger.isRunning_iff.2 running)]
      rfl

theorem result_run {s : Session} (fresh : s.machine.cycles = 0) (budget : UInt32) :
    (s.run budget).1 =
      (s.machine.runLimited budget.toUInt64 s.output).result.mapError .fault := by
  simp only [run, Machine.runLimited_eq, Outcome.counted, fresh, UInt64.sub_zero]
  cases (Machine.advance _ s.machine s.output).result <;> rfl

end Session

namespace Debugger
variable {d : Debugger}

/-- That nothing holds up the ticks as long as the machine runs. -/
structure Free (d : Debugger) : Prop where
  unmarked : d.breakpoints = []
  ticking : d.machine.state = .running → d.running = true

theorem Free.tick (free : d.Free) :
    d.tick.Free ∧ d.tick.progress = d.machine.after d.output 1 := by
  have unheld : ¬ d.Held := fun held => by simp [Held, free.unmarked] at held
  by_cases running : d.machine.state = .running
  · have ticking := free.ticking running
    have moved := d.progress_tick
    rw [if_pos ⟨ticking, running, unheld⟩] at moved
    refine ⟨⟨?_, fun still => ?_⟩, moved⟩
    · rw [tick_of_free ticking running unheld, step_breakpoints]
      exact free.unmarked
    · rw [tick_of_free ticking running unheld] at still ⊢
      rw [step_running still]
      exact ticking
  · rw [Machine.after_of_stopped running]
    by_cases ticking : d.running = true
    · rw [tick_of_stopped ticking running]
      exact ⟨⟨free.unmarked, fun runs => absurd runs running⟩, rfl⟩
    · rw [tick_of_idle (Bool.eq_false_iff.2 ticking)]
      exact ⟨free, rfl⟩

theorem Free.ticks (free : d.Free) (n : Nat) :
    (ticks n d).progress = d.machine.after d.output n := by
  induction n generalizing d with
  | zero => rfl
  | succ n ih =>
    obtain ⟨still, moved⟩ := free.tick
    obtain ⟨machine, output⟩ := Prod.mk.inj moved
    rw [Debugger.ticks, ih still, machine, output]
    rfl

theorem free_run (unmarked : d.breakpoints = []) : d.run.Free := ⟨unmarked, fun _ => rfl⟩

theorem reset_breakpoints (d : Debugger) : d.reset.breakpoints = d.breakpoints := by
  simp only [reset]
  split <;> rfl

theorem start_breakpoints (program : List UInt8) (c : Configuration) :
    (start program c).breakpoints = [] := by
  rw [start]
  split <;> exact reset_breakpoints _

theorem start_progress {program : List UInt8} {c : Configuration} {blank m : Machine}
    (built : c.build = .ok blank) (placed : blank.load program = (.ok (), m)) :
    (start program c).progress = (m, #[]) := by
  have loaded : (reset ⟨.fresh, program, c, #[], [], false, .reset, 0, false⟩).progress = (m, #[]) :=
    progress_reset built placed
  rw [start]
  split <;> exact loaded

end Debugger

namespace Machine

theorem build_standard : Configuration.standard.build = .ok fresh := rfl

theorem cycles_of_load {m blank : Machine} {program : List UInt8}
    (placed : blank.load program = (.ok (), m)) : m.cycles = blank.cycles := by
  obtain ⟨mem, -, rfl⟩ := load_eq_ok_iff.1 placed
  rfl

theorem allowance_of_unused {m : Machine} (unused : m.cycles = 0) (budget : UInt64) :
    m.allowance budget = budget.toNat := by
  rw [allowance, unused, UInt64.zero_add, UInt64.toNat_zero, Nat.sub_zero]

/-- All the ways to drive the full machine with a program that fits come to the same machine and
print the same: a run with a budget, a session that is loaded with the program and runs with that
budget or makes as many single steps until the machine has stopped, and a debugger without
breakpoints that is set going and ticks as often. The session's run fails if the plain run does,
and else returns the same count. -/
theorem drivers_agree {program : List UInt8} (fits : program.length ≤ 256) (n : UInt32) :
    ∃ m, fresh.load program = (.ok (), m) ∧
      let finish := m.runLimited n.toUInt64 (#[] : Array UInt8)
      (∀ s, Session.Loaded program s →
        (s.run n).1 = finish.result.mapError .fault ∧
        (s.run n).2.progress = (finish.machine, finish.out) ∧
        (s.steps n.toNat).progress = (finish.machine, finish.out)) ∧
      (Debugger.ticks n.toNat (Debugger.start program .standard).run).progress =
        (finish.machine, finish.out) := by
  have size : fresh.mem.size = 256 := by simp [fresh, powerOn, Memory.full, Memory.zeros,
    Memory.size, Memory.fullSize]
  obtain ⟨m, placed⟩ := (fresh.load_isOk_iff program).2 (size ▸ fits)
  refine ⟨m, placed, ?_⟩
  intro finish
  have unused : m.cycles = 0 := cycles_of_load placed
  have allowed : m.allowance n.toUInt64 = n.toNat := allowance_of_unused unused _
  have plain : (finish.machine, finish.out) = m.after #[] n.toNat :=
    allowed ▸ m.runLimited_progress #[] n.toUInt64
  rw [plain]
  refine ⟨fun s loaded => ?_, ?_⟩
  · obtain ⟨machine, output⟩ := Prod.mk.inj (loaded.progress_eq placed)
    have result := Session.result_run (machine ▸ unused) n
    rw [result, Session.progress_run, Session.progress_steps, machine, output, allowed]
    exact ⟨rfl, rfl, rfl⟩
  · obtain ⟨machine, output⟩ := Prod.mk.inj (Debugger.start_progress build_standard placed)
    rw [(Debugger.free_run (Debugger.start_breakpoints program _)).ticks]
    exact congrArg₂ (fun m out => m.after out n.toNat) machine output

def printingAndDividing : Image := .ofBytes [0x43, 0, 0xAB, 0, 1]

/-- The budget is not used up, since the division is a fault. -/
theorem drivers_agree_printingAndDividing :
    let session := (Session.fresh.loadImage (String.ofList printingAndDividing.write)).2
    let debugger := Debugger.start printingAndDividing.bytes .standard
    printingAndDividing.bytes.length ≤ 256 ∧
    Session.Loaded printingAndDividing.bytes session ∧
    (session.run 5).1 = .error (.fault .divisionByZero) ∧
    (session.run 5).2.progress = (session.steps 5).progress ∧
    (debugger.run.ticks 5).progress = (session.run 5).2.progress ∧
    (session.run 5).2.output = #[0] := by
  intro session debugger
  have fits : printingAndDividing.bytes.length ≤ 256 := by decide
  obtain ⟨m, placed, sessions, ticked⟩ := drivers_agree fits 5
  have parsed : Image.parse (String.ofList printingAndDividing.write).toList =
      .ok ⟨printingAndDividing.bytes, Image.rows printingAndDividing.bytes⟩ := by
    rw [String.toList_ofList, Image.parse_write_eq]
  have loaded : Session.Loaded printingAndDividing.bytes session := .image _ parsed rfl
  obtain ⟨result, run, stepped⟩ := sessions session loaded
  have stored : m = (fresh.load printingAndDividing.bytes).2 := by rw [placed]
  have done : (m.runLimited 5 (#[] : Array UInt8)).result = .error .divisionByZero ∧
      (m.runLimited 5 (#[] : Array UInt8)).out = #[0] := by
    rw [stored, runLimited_eq]
    decide +kernel
  refine ⟨fits, loaded, ?_, run.trans stepped.symm, ticked.trans run.symm, ?_⟩
  · exact result.trans (congrArg (Except.mapError SessionError.fault) done.1)
  · exact (congrArg Prod.snd run).trans done.2

end Machine

end ByteMachine
