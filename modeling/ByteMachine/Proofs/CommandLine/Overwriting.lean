import ByteMachine.Proofs.CommandLine.Interchange

/-! What assembling leaves of the files that were there. Only the file at the output path can
change, and none does if the command fails. The command compares the texts of its two paths and not
the places that they lead to, so the source is lost if it is named once more in another way. -/
namespace ByteMachine.CommandLine

namespace Files
variable {fs : Files} {path other t : String} {place spot : Place} {saved : Saved}

/-! ### What saving changes -/

theorem files_of_write (written : fs.write place t = .ok saved) :
    (∀ d, fs.content? place ≠ some (.device d)) ∧ saved.files = fs.put place (.text t) ∨
      saved.files = fs := by
  rw [write] at written
  split at written
  · cases written
    exact .inr rfl
  · split at written
    · cases written
      exact .inr rfl
    · cases written
  · cases written
  · cases written
    exact .inr rfl
  · cases written
    exact .inr rfl
  · next null full terminal output errors =>
    cases written
    refine .inl ⟨fun d => ?_, rfl⟩
    cases d <;> assumption

theorem content?_of_save (stored : fs.save path t = .ok saved) (apart : ¬ fs.Leads path spot) :
    saved.files.content? spot = fs.content? spot := by
  obtain ⟨place, leads, -, written⟩ := save_eq_ok_iff.1 stored
  rcases files_of_write written with ⟨-, put⟩ | kept
  · rw [put, content?_put_of_ne]
    rintro rfl
    exact apart leads
  · rw [kept]

theorem Leads.of_save (leads : fs.Leads other place) (stored : fs.save path t = .ok saved) :
    saved.files.Leads other place := by
  obtain ⟨_, -, -, written⟩ := save_eq_ok_iff.1 stored
  rcases files_of_write written with ⟨-, put⟩ | kept
  · rw [put]
    exact leads.put
  · rwa [kept]

theorem keeps_of_content?_ne (stored : fs.save path t = .ok saved)
    (changed : saved.files.content? place ≠ fs.content? place) :
    fs.Keeps path place ∧ saved.files = fs.put place (.text t) := by
  have leads : fs.Leads path place := by
    by_contra apart
    exact changed (content?_of_save stored apart)
  obtain ⟨found, led, file, written⟩ := save_eq_ok_iff.1 stored
  cases leads.unique led
  rcases files_of_write written with ⟨regular, put⟩ | kept
  · exact ⟨⟨leads, file, regular⟩, put⟩
  · rw [kept] at changed
    exact absurd rfl changed

theorem content?_of_read (leads : fs.Leads path place)
    (regular : ∀ d, fs.content? place ≠ some (.device d)) (read : fs.read path = .ok t) :
    fs.content? place = some (.text t) := by
  obtain ⟨found, led, readable⟩ := read_eq_ok_iff.1 read
  cases leads.unique led
  rw [readAt] at readable
  split at readable
  · next text =>
    cases readable
    exact text
  · cases readable
  · cases readable
  · next device => exact absurd device (regular _)
  · cases readable

end Files

variable {files : Files} {source target : String} {output : Option String} {place : Place}

/-! ### What assembling changes -/

theorem files_of_exitCode_ne (failed : (assembleFile files source output).exitCode ≠ 0) :
    (assembleFile files source output).files = files := by
  simp only [assembleFile] at failed ⊢
  split
  · rfl
  · next different =>
    rw [if_neg different] at failed
    split
    · rfl
    · next assembled =>
      simp only [assembled] at failed
      split
      · rfl
      · next stored =>
        simp only [stored] at failed
        exact absurd rfl failed

theorem files_or_saved (files : Files) (source : String) (output : Option String) :
    (assembleFile files source output).files = files ∨
      ∃ text saved, files.save (output.getD (defaultOutput source)) text = .ok saved ∧
        (assembleFile files source output).files = saved.files := by
  by_cases succeeded : (assembleFile files source output).exitCode = 0
  · obtain ⟨program, saved, -, stored, after⟩ := save_of_exitCode succeeded
    exact .inr ⟨_, saved, stored, after⟩
  · exact .inl (files_of_exitCode_ne succeeded)

theorem different_of_exitCode (succeeded : (assembleFile files source output).exitCode = 0) :
    output.getD (defaultOutput source) ≠ source := by
  intro same
  simp only [assembleFile, if_pos same] at succeeded
  cases succeeded

/-- That the two paths are not the same, so that the command goes on, and yet lead to one place.
The text there is not the image of its own program, as the image of the empty program is, whose
lines are all comments. -/
structure Overwrites (files : Files) (source target : String) (place : Place) : Prop where
  different : target ≠ source
  leads : files.Leads source place
  again : files.Leads target place
  file : files.isDirectory place = false
  fresh : ∃ text program, files.content? place = some (.text text) ∧
    assemble text = .ok program ∧ text ≠ imageText program

theorem Overwrites.content?_ne
    (overwrites : Overwrites files source (output.getD (defaultOutput source)) place) :
    (assembleFile files source output).files.content? place ≠ files.content? place := by
  obtain ⟨text, program, found, assembled, fresh⟩ := overwrites.fresh
  have read : files.read source = .ok text :=
    Files.read_eq_ok_iff.2 ⟨place, overwrites.leads, by rw [Files.readAt, found]; rfl⟩
  have keeps : files.Keeps (output.getD (defaultOutput source)) place := by
    refine ⟨overwrites.again, overwrites.file, fun d device => ?_⟩
    rw [found] at device
    cases device
  have after := (assembleFile_of_save overwrites.different
    (readSource_eq_ok_iff.2 ⟨text, read, assembled⟩) (keeps.save _)).2
  rw [after, Files.content?_put, found]
  intro same
  cases same
  exact fresh rfl

theorem overwrites_of_content?_ne (leads : files.Leads source place)
    (changed : (assembleFile files source output).files.content? place ≠ files.content? place) :
    Overwrites files source (output.getD (defaultOutput source)) place := by
  have succeeded : (assembleFile files source output).exitCode = 0 := by
    by_contra failed
    exact changed (by rw [files_of_exitCode_ne failed])
  obtain ⟨program, saved, assembled, stored, after⟩ := save_of_exitCode succeeded
  rw [after] at changed
  obtain ⟨keeps, put⟩ := Files.keeps_of_content?_ne stored changed
  obtain ⟨text, read, means⟩ := readSource_eq_ok_iff.1 assembled
  have found := Files.content?_of_read leads keeps.regular read
  refine ⟨different_of_exitCode succeeded, leads, keeps.leads, keeps.file,
    text, program, found, means, fun same => ?_⟩
  rw [put, Files.content?_put, found, same] at changed
  exact changed rfl

/-- A command that fails to assemble changes no file, as it fails before an ordinary file is written
(a write that has begun is taken to be completed), and one that succeeds only the file at its
output path. The source path still leads where it led, and the same content is there, except if
the output path is another way to name that place. -/
theorem assemble_keeps_source (files : Files) (source : String) (output : Option String) :
    let target := output.getD (defaultOutput source)
    let report := perform files (.assemble source output)
    (report.exitCode ≠ 0 → report.files = files) ∧
    (∀ place, ¬ files.Leads target place →
      report.files.content? place = files.content? place) ∧
    ∀ place, files.Leads source place → report.files.Leads source place ∧
      (report.files.content? place = files.content? place ↔
        ¬ Overwrites files source target place) := by
  intro target report
  have changes : ∀ {place}, files.Leads source place →
      (report.files.content? place ≠ files.content? place ↔
        Overwrites files source target place) := fun leads =>
    ⟨overwrites_of_content?_ne leads, Overwrites.content?_ne⟩
  have after : report.files = files ∨
      ∃ text saved, files.save target text = .ok saved ∧ report.files = saved.files :=
    files_or_saved files source output
  refine ⟨files_of_exitCode_ne, fun place apart => ?_,
    fun place leads => ⟨?_, (not_iff_comm.1 (changes leads)).symm⟩⟩
  · rcases after with kept | ⟨text, saved, stored, after⟩
    · rw [kept]
    · rw [after]
      exact Files.content?_of_save stored apart
  · rcases after with kept | ⟨text, saved, stored, after⟩
    · rwa [kept]
    · rw [after]
      exact leads.of_save stored

theorem assemble_keeps_source_letter :
    let report := perform letterFiles (.assemble "a.asm" none)
    report.files.Leads "a.asm" ["w", "a.asm"] ∧
      report.files.content? ["w", "a.asm"] = letterFiles.content? ["w", "a.asm"] := by
  have source : letterFiles.Leads "a.asm" ["w", "a.asm"] := ⟨rfl, rfl⟩
  have image : letterFiles.Leads "a.ls8" ["w", "a.ls8"] := ⟨rfl, rfl⟩
  obtain ⟨leads, kept⟩ := (assemble_keeps_source letterFiles "a.asm" none).2.2 _ source
  refine ⟨leads, kept.2 fun overwrites => ?_⟩
  have same : ["w", "a.asm"] = ["w", "a.ls8"] := overwrites.again.unique image
  exact absurd same (by decide)

/-- The same path is refused as an output, and another way to write it is not: the image takes
the place of the source. -/
theorem dot_loses_source :
    let refused := command letterFiles ["asm", "a.asm", "-o", "a.asm"]
    let report := command letterFiles ["asm", "a.asm", "-o", "./a.asm"]
    letterFiles.Leads "a.asm" ["w", "a.asm"] ∧ letterFiles.Leads "./a.asm" ["w", "a.asm"] ∧
    refused.exitCode = 1 ∧ refused.files = letterFiles ∧
    report.exitCode = 0 ∧
    letterFiles.content? ["w", "a.asm"] = some (.text "LDI R0, 65\nPRN R0\nHLT\n") ∧
    report.files.content? ["w", "a.asm"] = some (.text (imageText letterProgram)) ∧
    report.files.content? ["w", "a.asm"] ≠ letterFiles.content? ["w", "a.asm"] := by
  refine ⟨⟨rfl, rfl⟩, ⟨rfl, rfl⟩, ?_⟩
  decide +kernel

end ByteMachine.CommandLine
