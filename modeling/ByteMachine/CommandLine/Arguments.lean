import ByteMachine.Text.Numeral

/-! The arguments of the command line. A command has one operand and options, in
any order; a long option takes its value after an equals sign or as the next
argument, short ones may share a dash, and no option is given twice. -/
namespace ByteMachine.CommandLine

structure RunOptions where
  config : Option String
  maxCycles : Option UInt64
  decimal : Bool
  interval : Option UInt64
  trace : Bool
  dumpState : Bool
deriving DecidableEq

inductive Invocation where
  | banner
  | version
  | help
  | run (program : String) (options : RunOptions)
  | debug (program : String) (config : Option String)
  | assemble (source : String) (output : Option String)
  | disassemble (program : String)
deriving DecidableEq

inductive UsageError where
  | unknownCommand (name : String)
  | unexpected (argument : String)
  | missingOperand
  | missingValue (option : String)
  | repeated (option : String)
  | badValue (option value : String)
deriving DecidableEq

def UsageError.message : UsageError → String
  | unknownCommand name => s!"unrecognized subcommand '{name}'"
  | unexpected argument => s!"unexpected argument '{argument}' found"
  | missingOperand => "the following required arguments were not provided"
  | missingValue option => s!"a value is required for '--{option}' but none was supplied"
  | repeated option => s!"the argument '--{option}' cannot be used multiple times"
  | badValue option value => s!"invalid value '{value}' for '--{option}'"

structure OptionRule where
  long : String
  short : Option Char
  takesValue : Bool
  isNumber : Bool

def readNumber? (t : String) : Option UInt64 := do
  let n ← Text.readUnsigned? 10 t.toList
  if n < UInt64.size then some (UInt64.ofNat n) else none

def OptionRule.accepts (rule : OptionRule) (value : String) : Bool :=
  !rule.isNumber || (readNumber? value).isSome

/-- What has been read: options, those without a value with an empty one, and the operand. -/
structure Given where
  options : List (String × String)
  operand : Option String
  wantsHelp : Bool

namespace Given

def nothing : Given := ⟨[], none, false⟩

def add (g : Given) (rule : OptionRule) (value : String) : Except UsageError Given :=
  if (g.options.lookup rule.long).isSome then .error (.repeated rule.long)
  else if rule.accepts value then .ok { g with options := (rule.long, value) :: g.options }
  else .error (.badValue rule.long value)

def has (g : Given) (option : String) : Bool := (g.options.lookup option).isSome

def value? (g : Given) (option : String) : Option String := g.options.lookup option

def number? (g : Given) (option : String) : Option UInt64 := (g.value? option).bind readNumber?

def addOperand (g : Given) (argument : String) : Except UsageError Given :=
  match g.operand with
  | none => .ok { g with operand := some argument }
  | some _ => .error (.unexpected argument)

end Given

def isValue (argument : String) : Bool :=
  argument == "-" || argument.toList.head? != some '-'

/-- One argument that is a cluster of short options: what it sets, and the option
that still waits for its value, if any. -/
def readCluster (rules : List OptionRule) (g : Given) :
    List Char → Except UsageError (Given × Option OptionRule)
  | [] => .ok (g, none)
  | c :: rest =>
    match rules.find? (·.short == some c) with
    | none =>
      if c = 'h' then .ok ({ g with wantsHelp := true }, none)
      else .error (.unexpected (String.ofList ['-', c]))
    | some rule =>
      if rule.takesValue then
        match rest with
        | [] => .ok (g, some rule)
        | '=' :: value => (g.add rule (String.ofList value)).map (·, none)
        | value => (g.add rule (String.ofList value)).map (·, none)
      else do readCluster rules (← g.add rule "") rest

def readLong (rules : List OptionRule) (g : Given) (t : List Char) :
    Except UsageError (Given × Option OptionRule) :=
  let name := String.ofList (t.takeWhile (· != '='))
  match rules.find? (·.long == name), t.dropWhile (· != '=') with
  | none, rest =>
    if name = "help" ∧ rest = [] then .ok ({ g with wantsHelp := true }, none)
    else .error (.unexpected (String.ofList ('-' :: '-' :: t)))
  | some rule, [] => if rule.takesValue then .ok (g, some rule) else (g.add rule "").map (·, none)
  | some rule, _ :: value =>
    if rule.takesValue then (g.add rule (String.ofList value)).map (·, none)
    else .error (.unexpected (String.ofList ('-' :: '-' :: t)))

inductive Turn where
  | next (g : Given) (waiting : Option OptionRule)
  | operands (g : Given)
  | done (g : Given)

/-- Reads one argument behind `g`; `waiting` is the option whose value it has to be. -/
def readArgument (rules : List OptionRule) (g : Given) (waiting : Option OptionRule)
    (argument : String) : Except UsageError Turn :=
  match waiting with
  | some rule =>
    if isValue argument then (g.add rule argument).map (.next · none)
    else .error (.missingValue rule.long)
  | none =>
    if g.wantsHelp then .ok (.done g)
    else match argument.toList with
      | ['-'] => (g.addOperand argument).map (.next · none)
      | ['-', '-'] => .ok (.operands g)
      | '-' :: '-' :: t => (readLong rules g t).map fun (g, waiting) => .next g waiting
      | '-' :: cluster => (readCluster rules g cluster).map fun (g, waiting) => .next g waiting
      | _ => (g.addOperand argument).map (.next · none)

def readArguments (rules : List OptionRule) (g : Given) (waiting : Option OptionRule) :
    List String → Except UsageError Given
  | [] =>
    match waiting with
    | some rule => .error (.missingValue rule.long)
    | none => .ok g
  | argument :: rest => do
    match ← readArgument rules g waiting argument with
    | .next g waiting => readArguments rules g waiting rest
    | .operands g => rest.foldlM Given.addOperand g
    | .done g => return g

def configRule : OptionRule := ⟨"config", some 'c', true, false⟩

def runRules : List OptionRule :=
  [configRule, ⟨"max-cycles", some 'm', true, true⟩, ⟨"decimal", some 'd', false, false⟩,
    ⟨"interval-us", none, true, true⟩, ⟨"trace", some 't', false, false⟩,
    ⟨"dump-state", none, false, false⟩]

def assembleRules : List OptionRule := [⟨"output", some 'o', true, false⟩]

def readCommand (rules : List OptionRule) (arguments : List String)
    (make : Given → String → Invocation) : Except UsageError Invocation := do
  let g ← readArguments rules .nothing none arguments
  if g.wantsHelp then return .help
  match g.operand with
  | some operand => return make g operand
  | none => throw .missingOperand

def makeRun (g : Given) (program : String) : Invocation :=
  .run program {
    config := g.value? "config"
    maxCycles := g.number? "max-cycles"
    decimal := g.has "decimal"
    interval := g.number? "interval-us"
    trace := g.has "trace"
    dumpState := g.has "dump-state" }

/-- What the command for help is asked about: nothing, or a command. -/
def readHelp : List String → Except UsageError Invocation
  | [] => .ok .help
  | name :: others =>
    if name ∈ ["run", "debug", "asm", "disasm", "help"] then
      match others with
      | [] => .ok .help
      | other :: _ => .error (.unknownCommand other)
    else .error (.unknownCommand name)

/-- The invocation that an option in the place of a command asks for at once. Of
short ones that share a dash the first decides. -/
def atOnce? (argument : String) : Option Invocation :=
  match argument.toList with
  | '-' :: 'V' :: _ => some .version
  | '-' :: 'h' :: _ => some .help
  | _ => if argument = "--version" then some .version
    else if argument = "--help" then some .help
    else none

def Invocation.ofArguments : List String → Except UsageError Invocation
  | [] | ["--"] => .ok .banner
  | "help" :: names => readHelp names
  | "run" :: arguments => readCommand runRules arguments makeRun
  | "debug" :: arguments => readCommand [configRule] arguments
      fun g program => .debug program (g.value? "config")
  | "asm" :: arguments => readCommand assembleRules arguments
      fun g source => .assemble source (g.value? "output")
  | "disasm" :: arguments => readCommand [] arguments fun _ program => .disassemble program
  | argument :: _ =>
    match atOnce? argument with
    | some invocation => .ok invocation
    | none =>
      .error (if isValue argument then .unknownCommand argument else .unexpected argument)

end ByteMachine.CommandLine
