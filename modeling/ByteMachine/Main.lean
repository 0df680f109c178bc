import ByteMachine.CommandLine.Command
import ByteMachine.CommandLine.StandardFiles

/-! The program: it looks up the files that the arguments may name, carries out
the command, and writes back what the command has written. -/
namespace ByteMachine

open CommandLine

def pathOf (place : Place) : String := "/" ++ "/".intercalate place

/-- What is at a place on disk, as far as it can be read and is not known yet. -/
def observe (fs : Files) (place : Place) : IO Files := do
  if fs.isPresent place then return fs
  let here ← IO.currentDir
  if ← (here / pathOf place).isDir then
    return { fs with directories := place :: fs.directories }
  try
    let bytes ← IO.FS.readBinFile (pathOf place)
    let content := match String.fromUTF8? bytes with
      | some t => Content.text t
      | none => .binary bytes.toList
    return fs.put place content
  catch _ => return fs

def observePath (fs : Files) (path : String) : IO Files := do
  let (_, fs) ← (Files.components path).foldlM (fun (place, fs) name => do
    let place := fs.follow place name
    return (place, ← observe fs place)) (fs.origin path, fs)
  return fs

/-- The paths that an argument may hold: itself and, of an option, whatever its value may be. -/
def pathsIn (argument : String) : List String :=
  if argument.toList.head? = some '-' then
    (List.range (argument.length + 1)).map fun n => String.ofList (argument.toList.drop n)
  else [argument]

def observeAll (arguments : List String) : IO Files := do
  let working := (← IO.currentDir).components.filter (· != "")
  let paths := (arguments.flatMap pathsIn).flatMap fun path => [path, defaultOutput path]
  paths.eraseDups.foldlM observePath (.standard working)

end ByteMachine

open ByteMachine CommandLine in
def main (arguments : List String) : IO UInt32 := do
  let files ← observeAll arguments
  let report := command files arguments
  let _ ← (Files.written files report.files).mapM fun (place, t) =>
    IO.FS.writeFile (pathOf place) t
  (← IO.getStdout).write ⟨report.stdout⟩
  (← IO.getStderr).putStr report.stderrText
  return UInt32.ofNat report.exitCode
