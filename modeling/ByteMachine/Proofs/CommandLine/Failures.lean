import ByteMachine.Proofs.CommandLine.Run

/-! Failures of a command. A configuration that has been loaded can be built whatever the options
say, so no failure is about a configuration that cannot: every message that a command fails with
begins with another letter than that one. -/
namespace ByteMachine

namespace CommandLine
variable {files : Files} {path : String} {message : String}

theorem head?_append {c : Char} {first : String} (head : first.toList.head? = some c)
    (rest : String) : (first ++ rest).toList.head? = some c := by
  rw [String.toList_append, List.head?_append, head]
  rfl

/-- A message that is not about a bad configuration, as its first letter shows. -/
def Other (message : String) : Prop := message.toList.head?.any (· != 'B')

instance (message : String) : Decidable (Other message) := inferInstanceAs (Decidable (_ = true))

theorem other_append {first : String} (other : Other first) (rest : String) :
    Other (first ++ rest) := by
  cases head : first.toList.head? with
  | none => simp [Other, head] at other
  | some c => rwa [Other, head?_append head rest, ← head]

theorem not_other_bad (e : MemoryError) : ¬ Other s!"Bad configuration: {e.message}" := by
  have head : (toString "Bad configuration: ").toList.head? = some 'B' := by decide
  rw [Other, head?_append head]
  decide

theorem other_of_mapError {α ε : Type} {x : Except ε α} {f : ε → String} (other : ∀ e, Other (f e))
    (failed : x.mapError f = .error message) : Other message := by
  cases x with
  | ok a => cases failed
  | error e => exact Except.error.inj failed ▸ other e

theorem other_readSource (failed : readSource files path = .error message) : Other message := by
  obtain failed | ⟨text, -, failed⟩ := Except.bind_eq_error_iff.1 failed
  · exact other_of_mapError (fun e => other_append (by decide) _) failed
  · exact other_of_mapError (fun e => other_append (by decide) _) failed

theorem other_readImage (failed : readImage files path = .error message) : Other message := by
  obtain failed | ⟨text, -, failed⟩ := Except.bind_eq_error_iff.1 failed
  · exact other_of_mapError (fun e => other_append (by decide) _) failed
  · obtain failed | ⟨image, -, failed⟩ := Except.bind_eq_error_iff.1 failed
    · exact other_of_mapError (fun e => other_append (by decide) _) failed
    · cases failed

theorem other_loadProgram (failed : (loadProgram files path).2 = .error message) :
    Other message := by
  rw [loadProgram] at failed
  split at failed
  · next unread =>
    cases failed
    split at unread
    · exact other_readSource unread
    · exact other_readImage unread
  · split at failed
    · cases failed
      decide
    · cases failed

theorem Report.failureLine_inj {other : String} :
    failureLine message = failureLine other ↔ message = other := String.append_right_inj _

def Report.Fails (r : Report) (message : String) : Prop :=
  ∃ files lines, r = .failure files lines message

theorem Report.Fails.message_eq {lines : List String} {other : String}
    (fails : (Report.failure files lines other).Fails message) : message = other := by
  obtain ⟨_, _, same⟩ := fails
  have last := List.append_inj_right' (congrArg Report.stderr same) rfl
  exact (failureLine_inj.1 (List.singleton_inj.1 last)).symm

theorem Report.Fails.exitCode_eq {r : Report} (fails : r.Fails message) : r.exitCode = 1 := by
  obtain ⟨_, _, rfl⟩ := fails
  rfl

theorem other_execute {lines : List String} {c : Configuration} {options : RunOptions} {m : Machine}
    (fails : (execute files lines c options m).Fails message) : Other message := by
  obtain ⟨_, before, same⟩ := fails
  have code := congrArg Report.exitCode same
  have stderr := congrArg Report.stderr same
  simp only [execute, Report.failure, closingLines] at code stderr
  split at code
  · cases code
  · next f failed =>
    simp only [failed] at stderr
    rw [← List.append_assoc] at stderr
    have last := List.singleton_inj.1 (List.append_inj_right' stderr rfl)
    obtain rfl := Report.failureLine_inj.1 last
    exact other_append (other_append (other_append (by decide) _) _) _

theorem build_apply {place : Option String} {base : Configuration}
    (loaded : loadConfig files place = .ok base) (options : RunOptions) :
    ∃ m, (options.apply base).build = .ok m := by
  have valid : ValidSize base.memorySize.toNat := (loadConfig_eq_ok_iff.1 loaded).validSize
  exact ⟨_, Configuration.build_of_validSize (c := options.apply base) valid⟩

theorem other_runProgram {options : RunOptions}
    (fails : (runProgram files path options).Fails message) : Other message := by
  rw [runProgram] at fails
  split at fails
  · rw [fails.message_eq]
    exact other_append (by decide) _
  · next base configured =>
    rcases found : loadProgram files path with ⟨loading, wrong | program⟩
    · rw [found] at fails
      rw [fails.message_eq]
      exact other_loadProgram (congrArg Prod.snd found)
    · obtain ⟨m, built⟩ := build_apply configured options
      simp only [found, built] at fails
      split at fails
      · rw [fails.message_eq]
        exact other_append (by decide) _
      · exact other_execute fails

theorem other_debugProgram {config : Option String}
    (fails : (debugProgram files path config).Fails message) : Other message := by
  rw [debugProgram] at fails
  split at fails
  · rw [fails.message_eq]
    exact other_append (by decide) _
  · rcases found : loadProgram files path with ⟨loading, wrong | program⟩
    · rw [found] at fails
      rw [fails.message_eq]
      exact other_loadProgram (congrArg Prod.snd found)
    · rw [found] at fails
      rw [fails.message_eq]
      exact other_append (by decide) _

theorem other_assembleFile {output : Option String}
    (fails : (assembleFile files path output).Fails message) : Other message := by
  simp only [assembleFile] at fails
  split at fails
  · rw [fails.message_eq]
    decide
  · split at fails
    · next wrong unread =>
      rw [fails.message_eq]
      exact other_readSource unread
    · split at fails
      · rw [fails.message_eq]
        exact other_append (by decide) _
      · cases fails.exitCode_eq

theorem other_disassembleFile (fails : (disassembleFile files path).Fails message) :
    Other message := by
  rw [disassembleFile] at fails
  split at fails
  · next wrong unread =>
    rw [fails.message_eq]
    exact other_readImage unread
  · cases fails.exitCode_eq

theorem other_command {arguments : List String} (fails : (command files arguments).Fails message) :
    Other message := by
  rw [command] at fails
  split at fails
  · next invocation _ =>
    cases invocation with
    | banner | version | help => cases fails.exitCode_eq
    | run program options => exact other_runProgram fails
    | debug program config => exact other_debugProgram fails
    | assemble source output => exact other_assembleFile fails
    | disassemble program => exact other_disassembleFile fails
  · cases fails.exitCode_eq

end CommandLine

end ByteMachine
