import ByteMachine.CommandLine.Program
import ByteMachine.Proofs.Result

/-! What configuration and what program a command finds in the files, apart from what it prints
on the way to them. -/
namespace ByteMachine

namespace Configuration

theorem validSize_of_parse {text : String} {c : Configuration}
    (parsed : Configuration.parse text = .ok c) : ValidSize c.memorySize.toNat := by
  rw [parse] at parsed
  split at parsed
  · cases parsed
  · split at parsed
    · next valid =>
      cases parsed
      exact valid
    · cases parsed

end Configuration

namespace CommandLine
variable {files : Files} {path : String} {program : List UInt8}

def Configured (files : Files) : Option String → Configuration → Prop
  | none, c => c = .standard
  | some path, c => ∃ text, files.read path = .ok text ∧ Configuration.parse text = .ok c

theorem loadConfig_eq_ok_iff {path : Option String} {c : Configuration} :
    loadConfig files path = .ok c ↔ Configured files path c := by
  cases path with
  | none => exact Except.pure_eq_ok_iff.trans eq_comm
  | some path =>
    simp only [loadConfig, Configured, Except.bind_eq_ok_iff, Except.mapError_eq_ok_iff]

theorem Configured.validSize {path : Option String} {c : Configuration}
    (configured : Configured files path c) : ValidSize c.memorySize.toNat := by
  cases path with
  | none =>
    rw [show c = .standard from configured]
    decide
  | some path =>
    obtain ⟨_, -, parsed⟩ := configured
    exact Configuration.validSize_of_parse parsed

/-- That a file holds a program: as source text if its path ends in `.asm`, as an image if not. -/
def Holds (files : Files) (path : String) (program : List UInt8) : Prop :=
  ∃ text, files.read path = .ok text ∧
    if ".asm".toList <:+ path.toList then assemble text = .ok program
    else ∃ image, Image.parse text.toList = .ok image ∧ image.bytes = program

theorem isSourcePath_iff : isSourcePath path ↔ ".asm".toList <:+ path.toList :=
  List.isSuffixOf_iff_suffix

theorem readSource_eq_ok_iff : readSource files path = .ok program ↔
    ∃ text, files.read path = .ok text ∧ assemble text = .ok program := by
  simp only [readSource, Except.bind_eq_ok_iff, Except.mapError_eq_ok_iff]

theorem readImage_eq_ok_iff : readImage files path = .ok program ↔
    ∃ text, files.read path = .ok text ∧
      ∃ image, Image.parse text.toList = .ok image ∧ image.bytes = program := by
  simp only [readImage, Except.bind_eq_ok_iff, Except.mapError_eq_ok_iff, Except.pure_eq_ok_iff]

theorem holds_iff_readSource (ending : ".asm".toList <:+ path.toList) :
    Holds files path program ↔ readSource files path = .ok program := by
  simp only [Holds, if_pos ending, readSource_eq_ok_iff]

theorem holds_iff_readImage (image : ¬ ".asm".toList <:+ path.toList) :
    Holds files path program ↔ readImage files path = .ok program := by
  simp only [Holds, if_neg image, readImage_eq_ok_iff]

theorem Holds.unique {other : List UInt8} (first : Holds files path program)
    (second : Holds files path other) : program = other := by
  by_cases ending : ".asm".toList <:+ path.toList
  · rw [holds_iff_readSource ending] at first second
    exact Except.ok.inj (first.symm.trans second)
  · rw [holds_iff_readImage ending] at first second
    exact Except.ok.inj (first.symm.trans second)

theorem loadProgram_eq_ok_iff :
    (loadProgram files path).2 = .ok program ↔ Holds files path program ∧ program ≠ [] := by
  have found : (if isSourcePath path then readSource files path else readImage files path) =
      .ok program ↔ Holds files path program := by
    by_cases source : isSourcePath path
    · rw [if_pos source, holds_iff_readSource (isSourcePath_iff.1 source)]
    · rw [if_neg source, holds_iff_readImage (mt isSourcePath_iff.2 source)]
  rw [← found, loadProgram]
  split
  · next failed => simp [failed]
  · next loaded =>
    rw [loaded]
    split
    · next none => simp [none]
    · next some =>
      constructor
      · rintro ⟨⟩
        exact ⟨rfl, some⟩
      · rintro ⟨same, -⟩
        exact same

end CommandLine

end ByteMachine
