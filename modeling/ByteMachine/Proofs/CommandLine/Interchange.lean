import ByteMachine.Proofs.CommandLine.Files
import ByteMachine.Proofs.CommandLine.Run
import ByteMachine.Proofs.Image
import ByteMachine.Proofs.Listing.RoundTrip

/-! Source and images on the command line. An image that was assembled into a file holds the
program of its source, so both run alike, and the listing that is printed of it is source of the
same image again. Only a device does not keep what it is given. -/
namespace ByteMachine.CommandLine
variable {files : Files} {source path : String} {output : Option String} {program : List UInt8}

/-! ### The same program in two files -/

def imageText (program : List UInt8) : String := String.ofList (Image.ofBytes program).write

theorem readImage_of_imageText (read : files.read path = .ok (imageText program)) :
    readImage files path = .ok program := by
  refine readImage_eq_ok_iff.2 ⟨_, read, ?_⟩
  rw [imageText, String.toList_ofList, Image.parse_write_eq]
  exact ⟨_, rfl, rfl⟩

theorem Ready.of_holds {base : Configuration} {loaded : List UInt8} {m : Machine}
    {options : RunOptions} (ready : Ready files path options base loaded m)
    (held : Holds files path program) (same : Holds files source program) :
    Ready files source options base loaded m := by
  cases held.unique ready.held
  exact ⟨ready.configured, same, ready.some, ready.placed⟩

theorem observed_of_holds (first : Holds files path program) (second : Holds files source program)
    (options : RunOptions) :
    (runProgram files path options).observed = (runProgram files source options).observed :=
  observed_congr (fun _ _ _ => ⟨fun ready => ready.of_holds first second,
    fun ready => ready.of_holds second first⟩) fun _ _ => rfl

/-! ### The image of a source -/

theorem assembleFile_of_save {saved : Files.Saved}
    (different : output.getD (defaultOutput source) ≠ source)
    (assembled : readSource files source = .ok program)
    (stored : files.save (output.getD (defaultOutput source)) (imageText program) = .ok saved) :
    (assembleFile files source output).exitCode = 0 ∧
      (assembleFile files source output).files = saved.files := by
  simp only [assembleFile, if_neg different, assembled]
  rw [imageText] at stored
  rw [stored]
  exact ⟨rfl, rfl⟩

theorem save_of_exitCode (succeeded : (assembleFile files source output).exitCode = 0) :
    ∃ program saved, readSource files source = .ok program ∧
      files.save (output.getD (defaultOutput source)) (imageText program) = .ok saved ∧
      (assembleFile files source output).files = saved.files := by
  by_cases overwrites : output.getD (defaultOutput source) = source
  · simp only [assembleFile, if_pos overwrites] at succeeded
    cases succeeded
  · cases assembled : readSource files source with
    | error message =>
      simp only [assembleFile, if_neg overwrites, assembled] at succeeded
      cases succeeded
    | ok program =>
      cases stored : files.save (output.getD (defaultOutput source)) (imageText program) with
      | error e =>
        rw [imageText] at stored
        simp only [assembleFile, if_neg overwrites, assembled, stored] at succeeded
        cases succeeded
      | ok saved =>
        exact ⟨program, saved, rfl, stored, (assembleFile_of_save overwrites assembled stored).2⟩

theorem imagePath_ne {t : List Char} (ending : ['.', 'a', 's', 'm'] <:+ t) : imagePath t ≠ t := by
  induction t using imagePath.induct with
  | case1 rest ih =>
    intro same
    simp [imagePath] at same
  | case2 c rest other ih =>
    intro same
    rw [imagePath.eq_2 _ _ other, List.cons.injEq] at same
    rcases List.suffix_cons_iff.1 ending with whole | behind
    · cases whole
      exact other _ rfl rfl
    · exact ih behind same.2
  | case3 => simp at ending

theorem defaultOutput_ne (ending : ".asm".toList <:+ source.toList) :
    defaultOutput source ≠ source := by
  intro same
  refine imagePath_ne ending ?_
  rw [defaultOutput] at same
  rw [← String.toList_ofList (l := imagePath _), same]

theorem assembleFile_of_keeps {place : Place}
    (different : output.getD (defaultOutput source) ≠ source)
    (assembled : readSource files source = .ok program)
    (keeps : files.Keeps (output.getD (defaultOutput source)) place) :
    (assembleFile files source output).exitCode = 0 ∧
      (assembleFile files source output).files.read (output.getD (defaultOutput source)) =
        .ok (imageText program) := by
  obtain ⟨done, after⟩ := assembleFile_of_save different assembled (keeps.save _)
  rw [after]
  exact ⟨done, keeps.read _⟩

/-! ### The listing of an image -/

theorem disassembleFile_of_image (read : files.read path = .ok (imageText program)) :
    disassembleFile files path = .printed files (disassemble program ++ "\n") := by
  rw [disassembleFile, readImage_of_imageText read]

theorem readSource_of_listing {t : String} (read : files.read path = .ok t)
    (bytes : t.toUTF8.data = (disassemble program ++ "\n").toUTF8.data)
    (faithful : ∀ row ∈ Row.sweep 0 program, row.Whole ∧ row.Named) :
    readSource files path = .ok program := by
  have same : t = disassemble program ++ "\n" := String.toByteArray_inj.1 (ByteArray.ext bytes)
  exact readSource_eq_ok_iff.2 ⟨t, read, same ▸ Listing.assemble_printed faithful⟩

/-- An image that was assembled into a file, and no device, runs as its source does, with the same
options. If in addition no row of the sweep is cut off and every operand that has to name a
register names one, then the listing that is printed of the image, stored as source anywhere,
assembles to a file with the same text. -/
theorem source_image_interchange {source output : String}
    (ending : ".asm".toList <:+ source.toList) (image : ¬ ".asm".toList <:+ output.toList)
    (regular : ∀ place d, files.Leads output place → files.content? place ≠ some (.device d))
    (apart : ∀ place, files.Leads source place → ¬ files.Leads output place)
    (succeeded : (perform files (.assemble source (some output))).exitCode = 0) :
    let after := (perform files (.assemble source (some output))).files
    (∀ options, (perform after (.run output options)).observed =
      (perform after (.run source options)).observed) ∧
    ∃ program, Holds files source program ∧
      ((∀ row ∈ Row.sweep 0 program, row.Whole ∧ row.Named) →
        let listing := perform after (.disassemble output)
        listing.exitCode = 0 ∧ ∃ text, after.read output = .ok text ∧
          ∀ (others : Files) (copy t : String) (target : Option String) (place : Place),
            ".asm".toList <:+ copy.toList → others.read copy = .ok t →
            t.toUTF8.data = listing.stdout → target ≠ some copy →
            others.Keeps (target.getD (defaultOutput copy)) place →
            let again := perform others (.assemble copy target)
            again.exitCode = 0 ∧
              again.files.read (target.getD (defaultOutput copy)) = .ok text) := by
  obtain ⟨program, saved, assembled, stored, saves⟩ := save_of_exitCode succeeded
  obtain ⟨place, keeps, put⟩ := Files.keeps_of_save stored regular
  intro after
  have same : after = files.put place (.text (imageText program)) := saves.trans put
  have read : after.read output = .ok (imageText program) := same ▸ keeps.read _
  have held := (holds_iff_readSource ending).2 assembled
  have still : Holds after source program := by
    obtain ⟨text, before, means⟩ := held
    obtain ⟨start, leads, -⟩ := Files.read_eq_ok_iff.1 before
    refine ⟨text, ?_, means⟩
    rw [same]
    exact Files.read_put_of_ne leads (fun equal => apart start leads (equal ▸ keeps.leads)) before
  have stored := (holds_iff_readImage image).2 (readImage_of_imageText read)
  refine ⟨observed_of_holds stored still, program, held, fun faithful => ?_⟩
  have listed : perform after (.disassemble output) =
      .printed after (disassemble program ++ "\n") := disassembleFile_of_image read
  rw [listed]
  refine ⟨rfl, _, read, fun others copy t target spot ending reads bytes other kept => ?_⟩
  have different : target.getD (defaultOutput copy) ≠ copy := by
    cases target with
    | none => exact defaultOutput_ne ending
    | some target => exact fun equal => other (congrArg some equal)
  exact assembleFile_of_keeps different (readSource_of_listing reads bytes faithful) kept

def letterFiles : Files :=
  (Files.standard ["w"]).put ["w", "a.asm"] (.text "LDI R0, 65\nPRN R0\nHLT\n")

def letterProgram : List UInt8 := [0x99, 0, 65, 0x43, 0, 1]

theorem holds_letter : Holds letterFiles "a.asm" letterProgram := by
  refine ⟨"LDI R0, 65\nPRN R0\nHLT\n", by rfl, ?_⟩
  rw [if_pos (by decide)]
  decide +kernel

/-- The letter from the image and from the source, and the image again from its listing. -/
theorem source_image_interchange_letter :
    let options : RunOptions := ⟨none, some 9, true, none, true, false⟩
    let after := (perform letterFiles (.assemble "a.asm" (some "a.ls8"))).files
    let listing := perform after (.disassemble "a.ls8")
    let others := after.put ["w", "b.asm"] (.text (disassemble letterProgram ++ "\n"))
    (perform letterFiles (.assemble "a.asm" (some "a.ls8"))).exitCode = 0 ∧
    (perform after (.run "a.ls8" options)).observed =
      (perform after (.run "a.asm" options)).observed ∧
    listing.exitCode = 0 ∧
    (perform others (.assemble "b.asm" none)).exitCode = 0 ∧
    (perform others (.assemble "b.asm" none)).files.read "b.ls8" = after.read "a.ls8" := by
  intro options after listing others
  have output : letterFiles.Keeps "a.ls8" ["w", "a.ls8"] :=
    .of_absent ⟨rfl, rfl⟩ (by decide) (by decide)
  have source : letterFiles.Leads "a.asm" ["w", "a.asm"] := ⟨rfl, rfl⟩
  have apart : ∀ place, letterFiles.Leads "a.asm" place → ¬ letterFiles.Leads "a.ls8" place := by
    intro place leads same
    have equal := (source.unique leads).trans (output.leads.unique same).symm
    exact absurd equal (by decide)
  have assembled := (holds_iff_readSource (by decide)).1 holds_letter
  obtain ⟨succeeded, stored⟩ : (perform letterFiles (.assemble "a.asm" (some "a.ls8"))).exitCode = 0 ∧
      after = letterFiles.put ["w", "a.ls8"] (.text (imageText letterProgram)) :=
    @assembleFile_of_save _ _ (some "a.ls8") _ _ (by decide) assembled (output.save _)
  obtain ⟨runs, program, held, again⟩ := source_image_interchange (by decide) (by decide)
    (fun place d leads => output.leads.unique leads ▸ output.regular d) apart succeeded
  cases held.unique holds_letter
  have faithful : ∀ row ∈ Row.sweep 0 letterProgram, row.Whole ∧ row.Named := by
    unfold Row.Whole Row.Named
    decide +kernel
  obtain ⟨printed, text, read, saves⟩ := again faithful
  have image : after.read "a.ls8" = .ok (imageText letterProgram) := by
    rw [stored]
    exact output.read _
  have listed := disassembleFile_of_image image
  have keeps : others.Keeps "b.ls8" ["w", "b.ls8"] := by
    simp only [others, stored]
    exact .of_absent ⟨rfl, rfl⟩ (by decide) (by decide)
  have reads : others.read "b.asm" = .ok (disassemble letterProgram ++ "\n") := by
    simp only [others, stored]
    rfl
  obtain ⟨done, same⟩ := saves others "b.asm" _ none _ (by decide) reads
    (congrArg Report.stdout listed).symm nofun keeps
  exact ⟨succeeded, runs options, printed, done, same.trans read.symm⟩

theorem observed_letter : (command letterFiles ["run", "a.asm"]).observed = (#[65], 0) := by
  let options : RunOptions := ⟨none, none, false, none, false, false⟩
  have accepted : Invocation.ofArguments ["run", "a.asm"] = .ok (.run "a.asm" options) := by
    decide +kernel
  have configured : Configured letterFiles options.config .standard := rfl
  obtain ⟨m, unused, ready⟩ := configured.ready_of_fits holds_letter (by decide) (by decide)
  obtain ⟨blank, built, placed⟩ := ready.placed
  obtain rfl : Machine.fresh = blank := Except.ok.inj built
  have loaded : m = (Machine.fresh.load letterProgram).2 := by rw [placed]
  rw [command_run accepted, observed_of_ready ready, shown_outcome_of_limit (by decide) unused,
    loaded, Machine.runLimited_eq]
  decide +kernel

/-- What is written to the null device is gone, though the command succeeds: the source runs and
its image does not. -/
theorem null_is_no_image :
    let assembled := command letterFiles ["asm", "a.asm", "-o", "/dev/null"]
    ¬ ".asm".toList <:+ "/dev/null".toList ∧
    (∀ place, letterFiles.Leads "a.asm" place → ¬ letterFiles.Leads "/dev/null" place) ∧
    assembled.exitCode = 0 ∧
    (command assembled.files ["run", "a.asm"]).observed = (#[65], 0) ∧
    (command assembled.files ["run", "/dev/null"]).observed = (#[], 1) := by
  have source : letterFiles.Leads "a.asm" ["w", "a.asm"] := ⟨rfl, rfl⟩
  have null : letterFiles.Leads "/dev/null" ["dev", "null"] := ⟨rfl, rfl⟩
  intro assembled
  have kept : assembled.files = letterFiles := by decide +kernel
  refine ⟨by decide, fun place leads same => ?_, by decide +kernel, ?_, by decide +kernel⟩
  · have equal := (source.unique leads).trans (null.unique same).symm
    exact absurd equal (by decide)
  · rw [kept]
    exact observed_letter

end ByteMachine.CommandLine
