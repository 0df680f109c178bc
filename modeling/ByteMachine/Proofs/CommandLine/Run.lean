import ByteMachine.CommandLine.Command
import ByteMachine.CommandLine.StandardFiles
import ByteMachine.Proofs.CommandLine.Arguments
import ByteMachine.Proofs.CommandLine.Program
import ByteMachine.Proofs.Machine.Budget

/-! The `run` command. Its loop stops for the same reasons as a run of the machine with a budget
or without one, and the trace only goes along with it, so what it prints and its exit code are
those of that run. -/
namespace ByteMachine

namespace Machine
variable {σ : Type} [Sink σ]

def ended? (limit : Option UInt64) (m : Machine) (out : σ) : Option (Outcome σ Unit) :=
  match limit with
  | none => m.finish? out
  | some most => some (m.advanceTo most out)

theorem ended?_eq (limit : Option UInt64) (m : Machine) (out : σ) :
    m.ended? limit out =
      if m.state = .running ∧ limit.all (fun most => m.cycles < most) then
        match m.step out with
        | ⟨.ok _, m, out⟩ => m.ended? limit out
        | ⟨.error f, m, out⟩ => some ⟨.error f, m, out⟩
      else some ⟨.ok (), m, out⟩ := by
  cases limit with
  | none =>
    rw [ended?, finish?]
    simp only [Option.all_none, and_true]
    rfl
  | some most =>
    rw [ended?, advanceTo]
    simp only [Option.all_some, decide_eq_true_eq, dite_eq_ite]
    split
    · split
      · next done =>
        rw [done]
        rfl
      · next done => rw [done]
    · rfl

end Machine

namespace CommandLine

section Loop
variable {options : RunOptions} {limit : Option UInt64} {m : Machine} {out : Printer} {log : List String}

theorem RunOptions.ended?_of_drive? {done : Outcome Printer Unit × List String}
    (ends : options.drive? limit m out log = some done) : m.ended? limit out = some done.1 := by
  revert m out log done
  -- Each approximation of the loop agrees with the run as far as it comes to an end.
  apply RunOptions.drive?.partial_correctness
  intro drive? ih m out log done ends
  rw [Machine.ended?_eq]
  split at ends
  · next ready =>
    rw [if_pos ready]
    split at ends
    · next executed =>
      rw [executed]
      exact ih _ _ _ _ ends
    · next failed =>
      rw [failed]
      cases ends
      rfl
  · next unready =>
    rw [if_neg unready]
    cases ends
    rfl

theorem RunOptions.drive?_isSome {n : Nat}
    (stops : (m.after out n).1.state ≠ .running ∨
      ∃ most ∈ limit, most.toNat ≤ m.cycles.toNat + n) :
    (options.drive? limit m out log).isSome := by
  induction n generalizing m out log with
  | zero =>
    rw [drive?, if_neg]
    · rfl
    · rintro ⟨running, below⟩
      obtain stopped | ⟨most, rfl, reached⟩ := stops
      · exact stopped running
      · have less := UInt64.lt_iff_toNat_lt.1 (of_decide_eq_true below)
        exact Nat.not_lt.2 reached less
  | succ n ih =>
    rw [drive?]
    split
    · next ready =>
      rcases done : m.step out with ⟨f | i, after, written⟩
      · rfl
      · refine ih (stops.imp (fun stopped => ?_) fun ⟨most, given, reached⟩ => ⟨most, given, ?_⟩)
        · rwa [Machine.after_succ_eq, done] at stopped
        · cases given
          have below : m.cycles < most := of_decide_eq_true ready.2
          rw [Machine.cycles_step_ok done, Machine.toNat_add_one below]
          omega
    · rfl

theorem RunOptions.drive?_finish :
    (options.drive? limit m out log).map Prod.fst = m.ended? limit out := by
  cases driven : options.drive? limit m out log with
  | some done => rw [ended?_of_drive? driven, Option.map_some]
  | none =>
    -- The run has no end either, since whatever ends it ends the loop.
    have never (n : Nat) (stops : (m.after out n).1.state ≠ .running ∨
        ∃ most ∈ limit, most.toNat ≤ m.cycles.toNat + n) : False := by
      have ends : (options.drive? limit m out log).isSome := drive?_isSome stops
      rw [driven] at ends
      cases ends
    cases limit with
    | some most => exact (never most.toNat (.inr ⟨most, rfl, Nat.le_add_left _ _⟩)).elim
    | none =>
      cases ends : m.finish? out with
      | none => exact ends.symm
      | some finish =>
        obtain ⟨n, stopped, -⟩ := Machine.advance_of_finish? ends
        exact (never n (.inl stopped)).elim

end Loop

/-- What can be observed of a command beside the files: what it printed, and its exit code. -/
def Report.observed (r : Report) : Array UInt8 × Nat := (r.stdout, r.exitCode)

def shown {α : Type} (finish : Outcome Printer α) : Array UInt8 × Nat :=
  (finish.out.written,
    match finish.result with
    | .ok _ => 0
    | .error _ => 1)

theorem shown_counted (start : UInt64) (finish : Outcome Printer Unit) :
    shown (finish.counted start) = shown finish := by
  obtain ⟨_ | _, _, _⟩ := finish <;> rfl

def RunOptions.outcome (options : RunOptions) (base : Configuration) (m : Machine) :
    Outcome Printer Unit :=
  let c := options.apply base
  let out := Printer.ofPresentation c.output
  (m.ended? c.cycleLimit out).getD ⟨.ok (), m, out⟩

theorem observed_execute (files : Files) (lines : List String) (options : RunOptions)
    (base : Configuration) (m : Machine) :
    (execute files lines (options.apply base) options m).observed =
      shown (options.outcome base m) := by
  simp only [RunOptions.outcome, execute]
  rw [← @RunOptions.drive?_finish options _ _ _ []]
  rcases options.drive? (options.apply base).cycleLimit m
    (.ofPresentation (options.apply base).output) [] with _ | ⟨⟨_ | _, _, _⟩, _⟩ <;> rfl

/-- That a run can begin: there is a configuration and a program, and the program has been put on
the machine that was built. -/
structure Ready (files : Files) (path : String) (options : RunOptions) (base : Configuration)
    (program : List UInt8) (m : Machine) : Prop where
  configured : Configured files options.config base
  held : Holds files path program
  some : program ≠ []
  placed : ∃ blank, base.build = .ok blank ∧ blank.load program = (.ok (), m)

section Ready
variable {files : Files} {path : String} {options : RunOptions} {base : Configuration}
  {program : List UInt8} {m : Machine}

theorem observed_of_ready (ready : Ready files path options base program m) :
    (runProgram files path options).observed = shown (options.outcome base m) := by
  have configured := loadConfig_eq_ok_iff.2 ready.configured
  have loaded := loadProgram_eq_ok_iff.2 ⟨ready.held, ready.some⟩
  obtain ⟨blank, built, placed⟩ := ready.placed
  have same : (options.apply base).build = .ok blank := built
  simp only [runProgram, configured, loaded, same, placed, observed_execute]

theorem observed_of_not_ready (never : ∀ base program m, ¬ Ready files path options base program m) :
    (runProgram files path options).observed = (#[], 1) := by
  rw [runProgram]
  split
  · rfl
  · next base configured =>
    rcases found : loadProgram files path with ⟨loading, message | program⟩
    · rfl
    · have loaded : (loadProgram files path).2 = .ok program := congrArg Prod.snd found
      obtain ⟨held, some⟩ := loadProgram_eq_ok_iff.1 loaded
      simp only
      split
      · rfl
      · next blank built =>
        split
        · rfl
        · next m placed =>
          refine (never base program m ?_).elim
          exact ⟨loadConfig_eq_ok_iff.1 configured, held, some, blank, built, placed⟩

theorem observed_congr {other : Files} {place : String} {choices : RunOptions}
    (alike : ∀ base program m,
      Ready files path options base program m ↔ Ready other place choices base program m)
    (ends : ∀ base m, options.outcome base m = choices.outcome base m) :
    (runProgram files path options).observed = (runProgram other place choices).observed := by
  by_cases begins : ∃ base program m, Ready files path options base program m
  · obtain ⟨base, program, m, ready⟩ := begins
    rw [observed_of_ready ready, observed_of_ready ((alike _ _ _).1 ready), ends]
  · simp only [not_exists] at begins
    rw [observed_of_not_ready begins,
      observed_of_not_ready fun base program m ready => begins base program m ((alike _ _ _).2 ready)]

theorem runProgram_files : (runProgram files path options).files = files := by
  rw [runProgram]
  split
  · rfl
  · rcases loadProgram files path with ⟨loading, message | program⟩
    · rfl
    · simp only
      split
      · rfl
      · split <;> rfl

theorem Configured.ready_of_fits (configured : Configured files options.config base)
    (held : Holds files path program) (some : program ≠ [])
    (fits : program.length ≤ base.memorySize.toNat) :
    ∃ m, m.cycles = 0 ∧ Ready files path options base program m := by
  have valid := configured.validSize
  have size : (Machine.powerOn (.zeros base.memorySize.toNat valid)).mem.size =
      base.memorySize.toNat := Array.size_replicate
  obtain ⟨m, placed⟩ := (Machine.load_isOk_iff _ _).2 (size ▸ fits)
  refine ⟨m, ?_, configured, held, some, _, Configuration.build_of_validSize valid, placed⟩
  obtain ⟨_, -, rfl⟩ := Machine.load_eq_ok_iff.1 placed
  rfl

theorem Ready.fits (ready : Ready files path options base program m) :
    program.length ≤ base.memorySize.toNat := by
  obtain ⟨blank, built, placed⟩ := ready.placed
  rw [Configuration.build_of_validSize ready.configured.validSize] at built
  cases built
  have fits := (Machine.load_isOk_iff _ _).1 ⟨m, placed⟩
  exact fits.trans_eq Array.size_replicate

theorem shown_outcome_of_limit (limited : (options.apply base).maxCycles ≠ 0)
    (unused : m.cycles = 0) :
    shown (options.outcome base m) =
      shown (m.runLimited (options.apply base).maxCycles
        (.ofPresentation (options.apply base).output)) := by
  have limit : (options.apply base).cycleLimit = some (options.apply base).maxCycles :=
    if_neg limited
  rw [Machine.runLimited, shown_counted, unused, UInt64.zero_add]
  simp only [RunOptions.outcome, limit, Machine.ended?, Option.getD_some]

theorem shown_outcome_of_run? (unlimited : (options.apply base).maxCycles = 0)
    {finish : Outcome Printer UInt64}
    (ends : m.run? (.ofPresentation (options.apply base).output) = some finish) :
    shown (options.outcome base m) = shown finish := by
  have limit : (options.apply base).cycleLimit = none := if_pos unlimited
  obtain ⟨last, ended, rfl⟩ := Option.map_eq_some_iff.1 ends
  rw [shown_counted]
  simp only [RunOptions.outcome, limit, Machine.ended?, ended, Option.getD_some]

end Ready

theorem command_run {files : Files} {arguments : List String} {path : String} {options : RunOptions}
    (accepted : Invocation.ofArguments arguments = .ok (.run path options)) :
    command files arguments = runProgram files path options := by
  rw [command, accepted]
  rfl

theorem observed_diagnostics (files : Files) (path : String) (options : RunOptions)
    (trace dumpState : Bool) (interval : Option UInt64) :
    (runProgram files path { options with trace, dumpState, interval }).observed =
      (runProgram files path options).observed := by
  refine observed_congr (fun base program m => ⟨fun ready => ?_, fun ready => ?_⟩) fun _ _ => rfl
  · exact ⟨ready.configured, ready.held, ready.some, ready.placed⟩
  · exact ⟨ready.configured, ready.held, ready.some, ready.placed⟩

/-- What the `run` command prints is what the configured machine prints with the program on it,
and its exit code is 1 exactly if that run comes to a fault; the options for the number of cycles,
the output and the pause go before what the configuration says. Whenever there is no configuration
or no program, or the program is empty or too long, nothing is printed and the exit code is 1. The
files stay as they are. A trace, a dump of the state and a pause make no difference, neither as
options that were read nor where they stand among the arguments. -/
theorem run_observed {files : Files} {arguments : List String} {path : String}
    {options : RunOptions}
    (accepted : Invocation.ofArguments arguments = .ok (.run path options)) :
    let report := command files arguments
    report.files = files ∧
    (∀ base program, Configured files options.config base → Holds files path program →
      program ≠ [] → program.length ≤ base.memorySize.toNat →
      let c : Configuration := {
        memorySize := base.memorySize
        maxCycles := options.maxCycles.getD base.maxCycles
        output := if options.decimal then .decimal else base.output
        stepInterval := options.interval.getD base.stepInterval }
      ∃ blank m, c.build = .ok blank ∧ blank.load program = (.ok (), m) ∧
        (c.maxCycles ≠ 0 →
          report.observed = shown (m.runLimited c.maxCycles (.ofPresentation c.output))) ∧
        (c.maxCycles = 0 → ∀ finish, m.run? (.ofPresentation c.output) = some finish →
          report.observed = shown finish)) ∧
    ((¬ ∃ base program, Configured files options.config base ∧ Holds files path program ∧
        program ≠ [] ∧ program.length ≤ base.memorySize.toNat) →
      report.observed = (#[], 1)) ∧
    (∀ others trace dumpState interval,
      Invocation.ofArguments others = .ok (.run path { options with trace, dumpState, interval }) →
      (command files others).observed = report.observed) ∧
    (∀ front added back, Diagnostic added → arguments = "run" :: (front ++ back) →
      let more := "run" :: (front ++ (added ++ back))
      ∀ place choices, Invocation.ofArguments more = .ok (.run place choices) →
        (command files more).observed = report.observed) := by
  intro report
  have same : report = runProgram files path options := command_run accepted
  rw [same]
  refine ⟨runProgram_files, ?_, fun never => ?_, ?_, ?_⟩
  · intro base program configured held some fits c
    obtain ⟨m, unused, ready⟩ := configured.ready_of_fits held some fits
    obtain ⟨blank, built, placed⟩ := ready.placed
    refine ⟨blank, m, built, placed, fun limited => ?_, fun unlimited finish ends => ?_⟩
    · exact (observed_of_ready ready).trans (shown_outcome_of_limit limited unused)
    · exact (observed_of_ready ready).trans (shown_outcome_of_run? unlimited ends)
  · exact observed_of_not_ready fun base program m ready =>
      never ⟨base, program, ready.configured, ready.held, ready.some, ready.fits⟩
  · intro others trace dumpState interval accepted
    rw [command_run accepted, observed_diagnostics]
  · rintro front added back diagnostic rfl more place choices extended
    obtain ⟨rfl, trace, dumpState, interval, rfl⟩ := diagnostic.ofArguments accepted extended
    rw [command_run extended, observed_diagnostics]

def dividingFiles : Files :=
  (Files.standard ["w"]).put ["w", "divide.asm"] (.text "PRN R0\nDIV R0, R1\n")

/-- The third step would be the last one allowed, but the second is a fault already. The second
invocation does the same and leaves a trace. -/
theorem run_observed_dividing :
    let arguments := ["run", "divide.asm", "--max-cycles", "3", "-d"]
    let others := ["run", "-t", "divide.asm", "-dm3", "--dump-state", "--interval-us=5"]
    Invocation.ofArguments arguments =
      .ok (.run "divide.asm" ⟨none, some 3, true, none, false, false⟩) ∧
    Invocation.ofArguments others =
      .ok (.run "divide.asm" ⟨none, some 3, true, some 5, true, true⟩) ∧
    Holds dividingFiles "divide.asm" [0x43, 0, 0xAB, 0, 1] ∧
    (command dividingFiles arguments).observed = (#[48, 10], 1) ∧
    (command dividingFiles others).observed = (#[48, 10], 1) ∧
    (command dividingFiles arguments).files = dividingFiles := by
  intro arguments others
  have accepted : Invocation.ofArguments arguments =
      .ok (.run "divide.asm" ⟨none, some 3, true, none, false, false⟩) := by decide +kernel
  have more : Invocation.ofArguments others =
      .ok (.run "divide.asm" ⟨none, some 3, true, some 5, true, true⟩) := by decide +kernel
  have held : Holds dividingFiles "divide.asm" [0x43, 0, 0xAB, 0, 1] := by
    refine ⟨"PRN R0\nDIV R0, R1\n", by rfl, ?_⟩
    rw [if_pos (by decide)]
    decide +kernel
  obtain ⟨kept, ends, -, alike, -⟩ := @run_observed dividingFiles _ _ _ accepted
  obtain ⟨blank, m, built, placed, limited, -⟩ :=
    ends .standard [0x43, 0, 0xAB, 0, 1] rfl held (by decide) (by decide)
  obtain rfl : Machine.fresh = blank := Except.ok.inj built
  have fault : shown (m.runLimited 3 (.ofPresentation .decimal)) = (#[48, 10], 1) := by
    have loaded : m = (Machine.fresh.load [0x43, 0, 0xAB, 0, 1]).2 := by rw [placed]
    rw [loaded, Machine.runLimited_eq]
    decide +kernel
  have observed := (limited (by decide)).trans fault
  exact ⟨accepted, more, held, observed, (alike others _ _ _ more).trans observed, kept⟩

end CommandLine

end ByteMachine
