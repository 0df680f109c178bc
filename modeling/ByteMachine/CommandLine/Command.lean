import ByteMachine.CommandLine.Run
import ByteMachine.Listing

/-! All commands: what they do to the files and what they print. -/
namespace ByteMachine.CommandLine

def version : String := "0.1.0"

def bannerText : String :=
  s!"LS-8 Emulator v{version}\nAn 8-bit stored-program computer emulator\n" ++
    "\nUse --help for available commands\n"

def helpText : String :=
  "An emulator of the LS-8 8-bit computer\n\nUsage: ls8-emu [COMMAND]\n\nCommands:\n" ++
    "  run     Run a program until it halts\n" ++
    "  debug   Interactive debugger\n" ++
    "  asm     Assemble source to an .ls8 image\n" ++
    "  disasm  Disassemble an .ls8 image to readable text\n"

/-- A path with the ending of an image for each ending of source text in it. -/
def imagePath : List Char → List Char
  | '.' :: 'a' :: 's' :: 'm' :: rest => '.' :: 'l' :: 's' :: '8' :: imagePath rest
  | c :: rest => c :: imagePath rest
  | [] => []

def defaultOutput (source : String) : String := String.ofList (imagePath source.toList)

def assembleFile (files : Files) (source : String) (output : Option String) : Report :=
  let target := output.getD (defaultOutput source)
  if target = source then
    .failure files [] "Output path would overwrite the source; pass --output"
  else
    let opening := s!"📝 Assembling: {source} → {target}"
    match readSource files source with
    | .error message => .failure files [opening] message
    | .ok program =>
      let lines := [opening, s!"✓ Assembled {program.length} bytes"]
      match files.save target (String.ofList (Image.ofBytes program).write) with
      | .error e => .failure files lines s!"Failed to save image: {ioMessage e}"
      | .ok saved => .saved lines saved [s!"✓ Saved to {target}"]

def disassembleFile (files : Files) (path : String) : Report :=
  match readImage files path with
  | .error message => .failure files [] message
  | .ok program => .printed files (disassemble program ++ "\n")

/-- The debugger needs a terminal, and there is none. -/
def debugProgram (files : Files) (path : String) (config : Option String) : Report :=
  match loadConfig files config with
  | .error message => .failure files [] s!"Failed to load config: {message}"
  | .ok _ =>
    let (loading, program) := loadProgram files path
    let lines := s!"🔍 Loading: {path}" :: loading
    match program with
    | .error message => .failure files lines message
    | .ok _ =>
      .failure files (lines ++ ["🚀 Launching debugger..."])
        s!"Debugger error: {FileError.noDevice.message}"

def perform (files : Files) : Invocation → Report
  | .banner => .printed files bannerText
  | .version => .printed files s!"ls8-emu {version}\n"
  | .help => .printed files helpText
  | .run program options => runProgram files program options
  | .debug program config => debugProgram files program config
  | .assemble source output => assembleFile files source output
  | .disassemble program => disassembleFile files program

def command (files : Files) (arguments : List String) : Report :=
  match Invocation.ofArguments arguments with
  | .ok invocation => perform files invocation
  | .error e => { exitCode := 2, stdout := #[], stderr := [s!"error: {e.message}"], files }

end ByteMachine.CommandLine
