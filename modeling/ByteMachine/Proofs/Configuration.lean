import ByteMachine.Proofs.CommandLine.Failures
import ByteMachine.Proofs.Json.RoundTrip
import ByteMachine.Proofs.Machine.Stack

/-! Configurations as text. A field has the value that it is given, wherever it stands among the
members of the object, or its default; a configuration that is accepted can be built and comes
back from its text. So no command ever meets one that cannot be built. -/
namespace ByteMachine

namespace Configuration

/-- The value of a field: the one that is spelled by the only member with its name, or the default
if there is no such member. -/
inductive Given {α : Type} (members : List (String × Json)) (name : String) (default : α)
    (Spelled : α → Json → Prop) : α → Prop
  | leftOut (out : name ∉ members.map Prod.fst) : Given members name default Spelled default
  | once {value : α} {v : Json} (mem : (name, v) ∈ members)
      (single : (members.map Prod.fst).count name = 1) (spelled : Spelled value v) :
      Given members name default Spelled value

def Number (n : UInt64) (v : Json) : Prop := v = .nat n.toNat

def Name (p : Presentation) (v : Json) : Prop :=
  v = .string p.name ∨ v = .object [(some p.name, .null)]

/-- That the members of an object, in any order and among others, give a configuration. -/
structure Gives (members : List (String × Json)) (c : Configuration) : Prop where
  memorySize : Given members "memory_size" standard.memorySize Number c.memorySize
  maxCycles : Given members "max_cycles" standard.maxCycles Number c.maxCycles
  output : Given members "output" standard.output Name c.output
  stepInterval : Given members "step_interval_us" standard.stepInterval Number c.stepInterval

theorem Number.asWord? {n : UInt64} {v : Json} (spelled : Number n v) : v.asWord? = some n := by
  rw [spelled, Json.asWord?_nat n.toNat_lt, UInt64.ofNat_toNat]

theorem Name.ofName? {p : Presentation} {v : Json} (spelled : Name p v) :
    v.asName?.bind Presentation.ofName? = some p := by
  obtain rfl | rfl := spelled <;> exact Presentation.ofName?_name p

theorem Given.field {α : Type} {members : List (String × Json)} {name : String}
    {default value : α} {Spelled : α → Json → Prop} {read : Json → Option α}
    (given : Given members name default Spelled value)
    (reads : ∀ v, Spelled value v → read v = some value) :
    ∃ found, Json.field? (members.map fun (name, value) => (some name, value)) name = some found ∧
      orDefault default read found = some value := by
  cases given with
  | leftOut out => exact ⟨none, by rw [Json.field?, Json.given_of_not_mem out], rfl⟩
  | once mem single spelled =>
    exact ⟨some _, by rw [Json.field?, Json.given_of_count mem single], reads _ spelled⟩

theorem Gives.ofJson? {members : List (String × Json)} {c : Configuration}
    (gives : Gives members c) : ofJson? (.record members) = some c := by
  obtain ⟨memorySize, sized, size⟩ := gives.memorySize.field fun _ => Number.asWord?
  obtain ⟨maxCycles, limited, limit⟩ := gives.maxCycles.field fun _ => Number.asWord?
  obtain ⟨output, presented, presentation⟩ := gives.output.field fun _ => Name.ofName?
  obtain ⟨stepInterval, paused, pause⟩ := gives.stepInterval.field fun _ => Number.asWord?
  have fields : (Json.record members).fields? fieldNames =
      some [memorySize, maxCycles, output, stepInterval] := by
    rw [Json.fields?_record_eq_mapM]
    simp only [fieldNames, List.mapM_cons, List.mapM_nil, sized, limited, presented, paused]
    rfl
  simp only [Configuration.ofJson?, fields, size, limit, presentation, pause]
  rfl

theorem Gives.parse {text : String} {members : List (String × Json)} {c : Configuration}
    (gives : Gives members c) (spells : Json.parse text = some (.record members)) :
    parse text = if ValidSize c.memorySize.toNat then .ok c
      else .error (.memory (.invalidSize c.memorySize.toNat)) := by
  rw [Configuration.parse, spells, Option.bind_some, gives.ofJson?]

theorem parse_render (c : Configuration) :
    parse c.render = if ValidSize c.memorySize.toNat then .ok c
      else .error (.memory (.invalidSize c.memorySize.toNat)) := by
  have plain : Json.Plain c.toJson := by
    refine .record ?_
    simp only [List.forall_cons]
    exact ⟨.nat _, .nat _, .string _, .nat _, trivial⟩
  have gives : Gives [("memory_size", .nat c.memorySize.toNat),
      ("max_cycles", .nat c.maxCycles.toNat), ("output", .string c.output.name),
      ("step_interval_us", .nat c.stepInterval.toNat)] c :=
    ⟨.once (by simp) rfl rfl, .once (by simp) rfl rfl, .once (by simp) rfl (.inl rfl),
      .once (by simp) rfl rfl⟩
  exact gives.parse (Json.parse_render plain)

end Configuration

/-- Configurations as text. One that is accepted can be built, with as many cells as it says, a
machine that runs and a stack pointer inside memory, and comes back from its text. Any
configuration comes back from its text if a machine can have its memory, and is refused for its
size if not; and so is one whose fields are given in any order, beside others, or left out. So a
configuration that a command has loaded can be built whatever the options say, and no command
fails because it cannot. -/
theorem Configuration.accepted_builds :
    (∀ text c, parse text = .ok c → ∃ m, c.build = .ok m ∧ m.mem.size = c.memorySize.toNat ∧
      m.state = .running ∧ m.regs.sp.toNat < c.memorySize.toNat ∧ parse c.render = .ok c) ∧
    (∀ c : Configuration, let n := c.memorySize.toNat
      (parse c.render = .ok c ↔ 1 ≤ n ∧ n ≤ 256 ∧ n.isPowerOfTwo) ∧
      (¬ (1 ≤ n ∧ n ≤ 256 ∧ n.isPowerOfTwo) →
        parse c.render = .error (.memory (.invalidSize n)))) ∧
    (∀ text members c, Json.parse text = some (.record members) → Gives members c →
      parse text = if ValidSize c.memorySize.toNat then .ok c
        else .error (.memory (.invalidSize c.memorySize.toNat))) ∧
    (∀ files place base (options : CommandLine.RunOptions),
      CommandLine.loadConfig files place = .ok base → ∃ m, (options.apply base).build = .ok m) ∧
    ∀ files arguments after lines (e : MemoryError), CommandLine.command files arguments ≠
      .failure after lines s!"Bad configuration: {e.message}" := by
  have sizes (n : Nat) : ValidSize n ↔ 1 ≤ n ∧ n ≤ 256 ∧ n.isPowerOfTwo :=
    ⟨fun valid => ⟨valid.pos, valid⟩, And.right⟩
  refine ⟨fun text c parsed => ?_, ?_, ?_, ?_, ?_⟩
  · have valid := validSize_of_parse parsed
    have size : (Memory.zeros c.memorySize.toNat valid).size = c.memorySize.toNat :=
      Array.size_replicate
    refine ⟨_, build_of_validSize valid, size, rfl, ?_, ?_⟩
    · exact (Machine.powerOn_sp_lt _).trans_eq size
    · rw [parse_render, if_pos valid]
  · intro c n
    rw [← sizes, parse_render]
    by_cases valid : ValidSize c.memorySize.toNat
    · rw [if_pos valid]
      exact ⟨iff_of_true rfl valid, fun wrong => absurd valid wrong⟩
    · rw [if_neg valid]
      exact ⟨iff_of_false nofun valid, fun _ => rfl⟩
  · exact fun text members c spells gives => gives.parse spells
  · exact fun files place base options loaded => CommandLine.build_apply loaded options
  · intro files arguments after lines e failed
    exact CommandLine.not_other_bad e (CommandLine.other_command ⟨after, lines, failed⟩)

theorem Configuration.accepted_builds_reordered :
    ∃ m, Configuration.build ⟨64, 100000, .decimal, 0⟩ = .ok m ∧ m.mem.size = 64 := by
  have spells :
      Json.parse "\x7b\"output\": \"decimal\", \"note\": [1], \"memory_size\": 64\x7d" =
        some (.record [("output", .string "decimal"), ("note", .array [.nat 1]),
          ("memory_size", .nat 64)]) := by rfl
  obtain ⟨accepted, -, given, -⟩ := accepted_builds
  have parsed := given _ _ ⟨64, 100000, .decimal, 0⟩ spells
    ⟨.once (by simp) (by decide) rfl, .leftOut (by decide),
      .once List.mem_cons_self (by decide) (.inl rfl), .leftOut (by decide)⟩
  rw [if_pos (by decide)] at parsed
  obtain ⟨m, built, size, -⟩ := accepted _ _ parsed
  exact ⟨m, built, size⟩

end ByteMachine
