import ByteMachine.Assembly.Draft
import ByteMachine.CommandLine.Report
import ByteMachine.Configuration
import ByteMachine.Image

/-! Programs and configurations in files. A path that ends in `.asm` names source
text, any other one an image. -/
namespace ByteMachine.CommandLine

def sourceEnding : List Char := ['.', 'a', 's', 'm']

def isSourcePath (path : String) : Bool := sourceEnding.isSuffixOf path.toList

def ioMessage (e : FileError) : String := s!"I/O error: {e.message}"

def configMessage : ConfigurationError → String
  | .unreadable => "invalid config: not a configuration"
  | .memory e => e.message

def loadConfig (files : Files) : Option String → Except String Configuration
  | none => .ok .standard
  | some path => do
    let text ← (files.read path).mapError ioMessage
    (Configuration.parse text).mapError configMessage

def readSource (files : Files) (path : String) : Except String (List UInt8) := do
  let source ← (files.read path).mapError fun e => s!"Failed to read file: {e.message}"
  (assemble source).mapError fun e => s!"Assembly error: {e.message}"

def readImage (files : Files) (path : String) : Except String (List UInt8) := do
  let text ← (files.read path).mapError fun e => s!"Failed to load image: {ioMessage e}"
  let image ← (Image.parse text.toList).mapError fun e => s!"Failed to load image: {e.message}"
  return image.bytes

def loadedLine (path : String) (program : List UInt8) : String :=
  if isSourcePath path then s!"📝 Assembled {program.length} bytes"
  else s!"📂 Loaded {program.length} bytes"

def loadProgram (files : Files) (path : String) : List String × Except String (List UInt8) :=
  match if isSourcePath path then readSource files path else readImage files path with
  | .error message => ([], .error message)
  | .ok program =>
    ([loadedLine path program],
      if program = [] then .error "No instructions to execute" else .ok program)

end ByteMachine.CommandLine
