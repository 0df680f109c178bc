import ByteMachine.Proofs.Drivers
import ByteMachine.Proofs.MemorySafety

/-! Resets of the debugger. Whether one succeeds depends on the configuration and on the length
of the program only, both of which may have been replaced since the last; after one that fails
the machine has stopped and stays as it is until one succeeds. -/
namespace ByteMachine.Debugger

def Buildable (d : Debugger) : Prop :=
  (∃ k ≤ 8, d.config.memorySize.toNat = 2 ^ k) ∧ d.program.length ≤ d.config.memorySize.toNat

/-- What happens to a debugger: commands, resets, and another program or configuration, which
nobody checks before the next reset. -/
inductive Event where
  | command (c : Command)
  | reset
  | program (bytes : List UInt8)
  | configure (config : Configuration)

def handle (d : Debugger) : Event → Debugger
  | .command c => d.apply c
  | .reset => d.reset
  | .program bytes => { d with program := bytes }
  | .configure config => { d with config }

def playAll (d : Debugger) (events : List Event) : Debugger := events.foldl handle d

def Barren (d : Debugger) : List Event → Prop
  | [] => True
  | e :: rest => (e = .reset → ¬ d.Buildable) ∧ (d.handle e).Barren rest

variable {d : Debugger}

theorem loaded_eq {blank machine : Machine} (built : d.config.build = .ok blank)
    (loaded : blank.load d.program = (.ok (), machine)) :
    machine = .powerOn machine.mem ∧ machine.mem.toList =
      d.program ++ List.replicate (d.config.memorySize.toNat - d.program.length) 0 := by
  obtain ⟨zeros, sized, rfl⟩ := Except.map_eq_ok_iff.1 built
  obtain ⟨same, -, contents⟩ := Machine.eq_powerOn_of_load loaded
  have cells : zeros.toList = _ := (Memory.ofSize_eq_ok_iff.1 sized).2
  rw [cells, List.drop_replicate] at contents
  exact ⟨same, contents⟩

theorem buildable_iff : d.Buildable ↔
    ∃ blank machine, d.config.build = .ok blank ∧ blank.load d.program = (.ok (), machine) := by
  constructor
  · rintro ⟨size, fits⟩
    have valid := validSize_iff.2 size
    have cells : (Memory.zeros d.config.memorySize.toNat valid).size =
        d.config.memorySize.toNat := Array.size_replicate
    obtain ⟨machine, loaded⟩ := (Machine.load_isOk_iff (.powerOn (.zeros _ valid)) d.program).2
      (cells.symm ▸ fits)
    exact ⟨_, machine, Configuration.build_of_validSize valid, loaded⟩
  · rintro ⟨blank, machine, built, loaded⟩
    obtain ⟨zeros, sized, rfl⟩ := Except.map_eq_ok_iff.1 built
    obtain ⟨size, cells⟩ := Memory.ofSize_eq_ok_iff.1 sized
    have fits := (Machine.load_isOk_iff _ _).1 ⟨machine, loaded⟩
    rw [Machine.powerOn, ← Memory.length_toList, cells, List.length_replicate] at fits
    exact ⟨size, fits⟩

theorem reset_eq (d : Debugger) : ∃ machine status,
    d.reset = { d with output := #[], running := false, machine, status } := by
  rw [reset]
  cases reload { d with output := #[], running := false } with
  | ok machine => exact ⟨machine, .reset, rfl⟩
  | error status => exact ⟨d.machine.fault, status, rfl⟩

theorem progress_reset_of_not (fails : ¬ d.Buildable) :
    d.reset.progress = (d.machine.fault, #[]) := by
  rw [reset]
  rcases reloaded : reload { d with output := #[], running := false } with status | machine
  · rfl
  · obtain ⟨blank, built, loaded⟩ := reload_eq_ok_iff.1 reloaded
    exact absurd (buildable_iff.2 ⟨blank, machine, built, loaded⟩) fails

theorem running_of_executes {c : Command} (executes : d.Executes c) :
    d.machine.state = .running := by
  cases c with
  | step => exact executes
  | tick => exact executes.2.1
  | run | toggleBreakpoint | pause | disassembly => exact executes.elim

/-- Nothing but a reset that succeeds gets a machine going that has faulted. -/
theorem progress_handle {m : Machine} {e : Event} (faulted : d.progress = (m.fault, #[]))
    (barren : e = .reset → ¬ d.Buildable) : (d.handle e).progress = d.progress := by
  have machine : d.machine = m.fault := congrArg Prod.fst faulted
  cases e with
  | command c =>
    refine (d.progress_apply c).trans (if_neg fun executes => ?_)
    have running := running_of_executes executes
    rw [machine] at running
    cases running
  | reset =>
    have again := progress_reset_of_not (barren rfl)
    rw [machine] at again
    exact again.trans faulted.symm
  | program bytes => rfl
  | configure config => rfl

theorem progress_playAll {m : Machine} {events : List Event}
    (faulted : d.progress = (m.fault, #[])) (barren : d.Barren events) :
    (d.playAll events).progress = d.progress := by
  induction events generalizing d with
  | nil => rfl
  | cons e rest ih =>
    have first := progress_handle faulted barren.1
    exact (ih (first.trans faulted) barren.2).trans first

/-- What a reset does, whatever the debugger is like. It clears the output and the running of
ticks and leaves the program, the configuration, the breakpoints and the scroll position. If a
machine can be built and takes the program, it is the machine of a new debugger for them. If
not, the machine is the one before with its state changed, and neither commands nor another
program or configuration nor resets that fail change it or print anything. -/
theorem reset_from_any (d : Debugger) :
    (∃ machine status, d.reset = { d with output := #[], running := false, machine, status }) ∧
    (d.Buildable → ∃ blank machine, d.config.build = .ok blank ∧
      blank.load d.program = (.ok (), machine) ∧ d.reset.machine = machine ∧
      (start d.program d.config).machine = machine ∧ machine = .powerOn machine.mem ∧
      machine.mem.toList =
        d.program ++ List.replicate (d.config.memorySize.toNat - d.program.length) 0) ∧
    (¬ d.Buildable → d.reset.machine = { d.machine with state := .faulted } ∧
      ∀ events, d.reset.Barren events →
        (d.reset.playAll events).machine = { d.machine with state := .faulted } ∧
        (d.reset.playAll events).output = #[]) := by
  refine ⟨d.reset_eq, fun succeeds => ?_, fun fails => ?_⟩
  · obtain ⟨blank, machine, built, loaded⟩ := buildable_iff.1 succeeds
    exact ⟨blank, machine, built, loaded, congrArg Prod.fst (progress_reset built loaded),
      congrArg Prod.fst (start_progress built loaded), loaded_eq built loaded⟩
  · have faulted := progress_reset_of_not fails
    refine ⟨congrArg Prod.fst faulted, fun events barren => ?_⟩
    exact Prod.mk.inj ((progress_playAll faulted barren).trans faulted)

def threeCells : Debugger :=
  { printingOne with machine := printingOneLoaded, config := ⟨3, 0, .raw, 0⟩ }

/-- Eight cells would do, but nobody asks for them as long as there is no reset. -/
theorem reset_from_any_threeCells :
    let events : List Event := [.command .run, .command .tick, .reset, .command .step,
      .configure ⟨8, 0, .raw, 0⟩, .command .run, .command .tick]
    ¬ threeCells.Buildable ∧ threeCells.reset.Barren events ∧
    (threeCells.reset.playAll events).machine = { threeCells.machine with state := .faulted } ∧
    (threeCells.reset.playAll events).output = #[] ∧
    (threeCells.reset.playAll events).Buildable ∧
    (threeCells.reset.playAll events).reset.machine = printingOneLoaded := by
  intro events
  have fails : ¬ threeCells.Buildable := fun succeeds => absurd succeeds.1 (by decide)
  have barren : threeCells.reset.Barren events :=
    ⟨nofun, nofun, fun _ => fails, nofun, nofun, nofun, nofun, trivial⟩
  have succeeds : (threeCells.reset.playAll events).Buildable := ⟨⟨3, by decide, rfl⟩, by decide⟩
  obtain ⟨machine, output⟩ := ((reset_from_any threeCells).2.2 fails).2 events barren
  have config : (threeCells.reset.playAll events).config = ⟨8, 0, .raw, 0⟩ := rfl
  have built : (threeCells.reset.playAll events).config.build =
      .ok (.powerOn (.zeros 8 (by decide))) := by rw [config]; rfl
  have loaded : (Machine.powerOn (.zeros 8 (by decide))).load
      (threeCells.reset.playAll events).program = (.ok (), printingOneLoaded) := rfl
  exact ⟨fails, barren, machine, output, succeeds, congrArg Prod.fst (progress_reset built loaded)⟩

end ByteMachine.Debugger
