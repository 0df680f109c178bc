import ByteMachine.CommandLine.Arguments
import ByteMachine.CommandLine.Program

/-! The `run` command: the program runs on the configured machine, and what it
prints is the output. A trace and the final state go beside it. -/
namespace ByteMachine.CommandLine

def RunOptions.apply (options : RunOptions) (c : Configuration) : Configuration where
  memorySize := c.memorySize
  maxCycles := options.maxCycles.getD c.maxCycles
  output := if options.decimal then .decimal else c.output
  stepInterval := options.interval.getD c.stepInterval

def traceLine (pc : UInt8) (i : Instruction) (regs : Registers) : String :=
  let address := String.ofList (Text.hex pc.toNat)
  let text := String.ofList (i.source.rightpad 14 ' ')
  let general := ", ".intercalate (regs.toBytes.map fun b => String.ofList (Text.hex b.toNat))
  let sp := String.ofList (Text.hex regs.sp.toNat)
  s!"{address}: {text} R=[{general}] FL={regs.flags} SP={sp}"

/-- Steps until the machine stops, a step fails or the limit on the count of instructions is
reached, and keeps a line for each instruction if there is to be a trace, the last one first.
There is no outcome if none of these ever happens. -/
def RunOptions.drive? (options : RunOptions) (limit : Option UInt64) (m : Machine) (out : Printer)
    (log : List String) : Option (Outcome Printer Unit × List String) :=
  if m.state = .running ∧ limit.all (fun most => m.cycles < most) then
    match m.step out with
    | ⟨.ok i, next, out⟩ =>
      options |>.drive? limit next out
        (if options.trace then traceLine m.regs.pc i next.regs :: log else log)
    | ⟨.error f, m, out⟩ => some (⟨.error f, m, out⟩, log)
  else some (⟨.ok (), m, out⟩, log)
partial_fixpoint

def hexAddress (b : UInt8) : String := "0x" ++ String.ofList (Text.hexLower b.toNat)

def resultLines (m : Machine) : List String :=
  ["", "━━━ Result ━━━", s!"Cycles: {m.cycles.toNat}", s!"State: {m.state.name}",
    s!"PC: {hexAddress m.regs.pc}  FL: {m.regs.flags}  SP: {hexAddress m.regs.sp}"]

def limitLines (c : Configuration) : List String :=
  ["", s!"⚠️  Reached max cycles limit ({c.maxCycles.toNat}). Use --max-cycles to increase."]

def closingLines (c : Configuration) (dumpState : Bool) (finish : Outcome Printer Unit) :
    List String :=
  let m := finish.machine
  resultLines m ++ (if dumpState then [m.toJson.renderLines] else []) ++
    match finish.result with
    | .error f =>
      [Report.failureLine s!"CPU error at PC={hexAddress m.regs.pc}: {f.message}"]
    | .ok _ => if m.isRunning then limitLines c else []

/-- The report on a run that is to end. What it would be if the run does not is of no account. -/
def execute (files : Files) (lines : List String) (c : Configuration) (options : RunOptions)
    (m : Machine) : Report :=
  let out := Printer.ofPresentation c.output
  let (finish, log) := (options.drive? c.cycleLimit m out []).getD (⟨.ok (), m, out⟩, [])
  { exitCode := match finish.result with
      | .ok _ => 0
      | .error _ => 1
    stdout := finish.out.written
    stderr := lines ++ log.reverse ++ closingLines c options.dumpState finish
    files }

def runProgram (files : Files) (path : String) (options : RunOptions) : Report :=
  match loadConfig files options.config with
  | .error message => .failure files [] s!"Failed to load config: {message}"
  | .ok base =>
    let c := options.apply base
    let (loading, program) := loadProgram files path
    let lines := s!"🔧 Running: {path}" :: loading
    match program with
    | .error message => .failure files lines message
    | .ok program =>
      match c.build with
      | .error e => .failure files lines s!"Bad configuration: {e.message}"
      | .ok m =>
        match m.load program with
        | (.error e, _) => .failure files lines s!"Failed to load program: {e.message}"
        | (.ok (), m) => execute files lines c options m

end ByteMachine.CommandLine
