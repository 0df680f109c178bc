import ByteMachine.CommandLine.Files

/-! What a command leaves behind: an exit code, what it printed, and the files. -/
namespace ByteMachine.CommandLine

structure Report where
  exitCode : Nat
  stdout : Array UInt8
  stderr : List String
  files : Files

namespace Report

def failureLine (message : String) : String := s!"❌ {message}"

/-- A command that succeeded and saved a text after some lines and before others.
What the text did at once to the streams is part of what was printed. -/
def saved (before : List String) (saved : Files.Saved) (after : List String) : Report where
  exitCode := 0
  stdout := saved.output.toUTF8.data
  stderr := before ++ (Text.lines saved.errors.toList).map String.ofList ++ after
  files := saved.files

def failure (files : Files) (lines : List String) (message : String) : Report :=
  ⟨1, #[], lines ++ [failureLine message], files⟩

def printed (files : Files) (text : String) : Report := ⟨0, text.toUTF8.data, [], files⟩

def stderrText (r : Report) : String := String.join (r.stderr.map (· ++ "\n"))

end Report

end ByteMachine.CommandLine
