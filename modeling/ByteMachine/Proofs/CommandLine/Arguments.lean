import ByteMachine.CommandLine.Arguments
import ByteMachine.Proofs.Result

/-! An option among other arguments. It is kept beside what else is read and changes nothing of
that, wherever it stands, so the options that only show more of a run leave all else of the
invocation as it is. -/
namespace ByteMachine.CommandLine

def Follows {α β : Type} (related : α → β → Prop) (x : Except UsageError α)
    (y : Except UsageError β) : Prop :=
  ∀ b, y = .ok b → ∃ a, x = .ok a ∧ related a b

namespace Follows
variable {α β γ δ : Type} {related : α → β → Prop} {further : γ → δ → Prop}
  {x : Except UsageError α} {y : Except UsageError β}

theorem of_ok {a : α} {b : β} (pair : related a b) : Follows related (.ok a) (.ok b) := by
  rintro _ ⟨⟩
  exact ⟨a, rfl, pair⟩

theorem of_error (e : UsageError) : Follows related x (.error e) := nofun

theorem bind {f : α → Except UsageError γ} {g : β → Except UsageError δ}
    (first : Follows related x y) (second : ∀ a b, related a b → Follows further (f a) (g b)) :
    Follows further (x >>= f) (y >>= g) := by
  intro d ends
  obtain ⟨b, reads, ends⟩ := Except.bind_eq_ok_iff.1 ends
  obtain ⟨a, read, pair⟩ := first b reads
  obtain ⟨c, last, pair⟩ := second a b pair d ends
  exact ⟨c, Except.bind_eq_ok_iff.2 ⟨a, read, last⟩, pair⟩

theorem map {f : α → γ} {g : β → δ} (first : Follows related x y)
    (pairs : ∀ a b, related a b → further (f a) (g b)) : Follows further (x.map f) (y.map g) := by
  intro d ends
  obtain ⟨b, reads, rfl⟩ := Except.map_eq_ok_iff.1 ends
  obtain ⟨a, read, pair⟩ := first b reads
  exact ⟨f a, Except.map_eq_ok_iff.2 ⟨a, read, rfl⟩, pairs a b pair⟩

end Follows

/-! ### What has been read -/

namespace Given
variable {entry : String × String} {g more : Given}

/-- That what has been read differs by one option, which the second has and the first has not. -/
structure Beside (entry : String × String) (g more : Given) : Prop where
  options : ∃ later earlier, g.options = later ++ earlier ∧ more.options = later ++ entry :: earlier
  operand : more.operand = g.operand
  wantsHelp : more.wantsHelp = g.wantsHelp

namespace Beside

theorem lookup (beside : Beside entry g more) {name : String} (other : name ≠ entry.1) :
    more.options.lookup name = g.options.lookup name := by
  obtain ⟨later, earlier, options, extended⟩ := beside.options
  have missed : (name == entry.1) = false := beq_false_of_ne other
  rw [options, extended, List.lookup_append, List.lookup_append, List.lookup_cons, missed]

theorem add (beside : Beside entry g more) (rule : OptionRule) (value : String) :
    Follows (Beside entry) (g.add rule value) (more.add rule value) := by
  rw [Given.add, Given.add]
  by_cases taken : (more.options.lookup rule.long).isSome
  · rw [if_pos taken]
    exact .of_error _
  · obtain ⟨later, earlier, options, extended⟩ := beside.options
    have other : rule.long ≠ entry.1 := by
      intro same
      rw [extended, List.lookup_append, List.lookup_cons, same, beq_self_eq_true] at taken
      simp at taken
    rw [if_neg taken, ← beside.lookup other, if_neg taken]
    split
    · refine .of_ok ⟨⟨(rule.long, value) :: later, earlier, ?_, ?_⟩, beside.operand, beside.wantsHelp⟩
      · rw [options, List.cons_append]
      · rw [extended, List.cons_append]
    · exact .of_error _

theorem addOperand (beside : Beside entry g more) (argument : String) :
    Follows (Beside entry) (g.addOperand argument) (more.addOperand argument) := by
  rw [Given.addOperand, Given.addOperand, beside.operand]
  cases g.operand with
  | some _ => exact .of_error _
  | none => exact .of_ok ⟨beside.options, rfl, beside.wantsHelp⟩

theorem addOperands (beside : Beside entry g more) (arguments : List String) :
    Follows (Beside entry) (arguments.foldlM Given.addOperand g)
      (arguments.foldlM Given.addOperand more) := by
  induction arguments generalizing g more with
  | nil => exact .of_ok beside
  | cons argument arguments ih =>
    rw [List.foldlM_cons, List.foldlM_cons]
    exact (beside.addOperand argument).bind fun _ _ still => ih still

end Beside

end Given

/-! ### One argument -/

section Reading
variable {entry : String × String} {g more : Given} {rules : List OptionRule}
open Given

def BesideWaiting (entry : String × String) (done further : Given × Option OptionRule) : Prop :=
  Beside entry done.1 further.1 ∧ done.2 = further.2

theorem addValue_follows (beside : Beside entry g more) (rule : OptionRule) (value : String) :
    Follows (BesideWaiting entry) ((g.add rule value).map (·, none))
      ((more.add rule value).map (·, none)) :=
  (beside.add rule value).map fun _ _ still => ⟨still, rfl⟩

theorem readCluster_follows (beside : Beside entry g more) (cluster : List Char) :
    Follows (BesideWaiting entry) (readCluster rules g cluster) (readCluster rules more cluster) := by
  induction cluster generalizing g more with
  | nil => exact .of_ok ⟨beside, rfl⟩
  | cons c rest ih =>
    rw [readCluster, readCluster]
    split
    · split
      · exact .of_ok ⟨⟨beside.options, beside.operand, rfl⟩, rfl⟩
      · exact .of_error _
    · next rule _ =>
      split
      · split
        · exact .of_ok ⟨beside, rfl⟩
        · exact addValue_follows beside rule _
        · exact addValue_follows beside rule _
      · exact (beside.add rule "").bind fun _ _ still => ih still

theorem readLong_follows (beside : Beside entry g more) (t : List Char) :
    Follows (BesideWaiting entry) (readLong rules g t) (readLong rules more t) := by
  rw [readLong, readLong]
  split
  · split
    · exact .of_ok ⟨⟨beside.options, beside.operand, rfl⟩, rfl⟩
    · exact .of_error _
  · next rule _ _ =>
    split
    · exact .of_ok ⟨beside, rfl⟩
    · exact addValue_follows beside rule _
  · next rule _ _ _ _ =>
    split
    · exact addValue_follows beside rule _
    · exact .of_error _

end Reading

namespace Turn

def goOn (rules : List OptionRule) (rest : List String) : Turn → Except UsageError Given
  | next g waiting => readArguments rules g waiting rest
  | operands g => rest.foldlM Given.addOperand g
  | done g => .ok g

theorem readArguments_cons (rules : List OptionRule) (g : Given) (waiting : Option OptionRule)
    (argument : String) (rest : List String) :
    readArguments rules g waiting (argument :: rest) =
      readArgument rules g waiting argument >>= goOn rules rest := by
  rw [readArguments]
  refine congrArg (readArgument rules g waiting argument >>= ·) (funext fun turn => ?_)
  cases turn <;> rfl

variable {entry : String × String} {g more : Given} {rules : List OptionRule}
  {waiting : Option OptionRule}

inductive Beside (entry : String × String) : Turn → Turn → Prop
  | next {g more : Given} (beside : Given.Beside entry g more) (waiting : Option OptionRule) :
    Beside entry (.next g waiting) (.next more waiting)
  | operands {g more : Given} (beside : Given.Beside entry g more) :
    Beside entry (.operands g) (.operands more)
  | done {g more : Given} (beside : Given.Beside entry g more) : Beside entry (.done g) (.done more)

theorem readArgument_follows (beside : Given.Beside entry g more) (argument : String) :
    Follows (Beside entry) (readArgument rules g waiting argument)
      (readArgument rules more waiting argument) := by
  have turn (done further : Given × Option OptionRule) (still : BesideWaiting entry done further) :
      Beside entry (next done.1 done.2) (next further.1 further.2) := still.2 ▸ .next still.1 done.2
  rw [readArgument.eq_def, readArgument.eq_def]
  cases waiting with
  | some rule =>
    simp only
    split
    · exact (beside.add rule argument).map fun _ _ still => .next still none
    · exact .of_error _
  | none =>
    simp only
    rw [beside.wantsHelp]
    split
    · exact .of_ok (.done beside)
    · split
      · exact (beside.addOperand argument).map fun _ _ still => .next still none
      · exact .of_ok (.operands beside)
      · exact (readLong_follows beside _).map turn
      · exact (readCluster_follows beside _).map turn
      · exact (beside.addOperand argument).map fun _ _ still => .next still none

end Turn

/-! ### All arguments -/

section Insertion
variable {entry : String × String} {g more : Given} {rules : List OptionRule}
  {waiting : Option OptionRule}

theorem readArguments_follows (beside : Given.Beside entry g more) (arguments : List String) :
    Follows (Given.Beside entry) (readArguments rules g waiting arguments)
      (readArguments rules more waiting arguments) := by
  induction arguments generalizing g more waiting with
  | nil =>
    rw [readArguments.eq_def, readArguments.eq_def]
    cases waiting with
    | none => exact .of_ok beside
    | some rule => exact .of_error _
  | cons argument arguments ih =>
    rw [Turn.readArguments_cons, Turn.readArguments_cons]
    refine (Turn.readArgument_follows beside argument).bind fun turn further still => ?_
    cases still with
    | next still waiting => exact ih still
    | operands still => exact still.addOperands arguments
    | done still => exact .of_ok still

theorem Given.beside_of_add {rule : OptionRule} {value : String}
    (added : g.add rule value = .ok more) : Given.Beside (rule.long, value) g more := by
  rw [Given.add] at added
  split at added
  · cases added
  · split at added <;> cases added
    exact ⟨⟨[], g.options, rfl, rfl⟩, rfl, rfl⟩

theorem Given.length_operands {arguments : List String}
    (added : arguments.foldlM Given.addOperand g = .ok more) :
    arguments.length + g.operand.toList.length = more.operand.toList.length := by
  induction arguments generalizing g with
  | nil =>
    cases added
    exact Nat.zero_add _
  | cons argument arguments ih =>
    rw [List.foldlM_cons] at added
    obtain ⟨first, taken, added⟩ := Except.bind_eq_ok_iff.1 added
    rw [Given.addOperand] at taken
    split at taken
    · next none =>
      cases taken
      rw [none, ← ih added]
      simp
    · cases taken

theorem wantsHelp_of_done {argument : String} {done : Given}
    (read : readArgument rules g waiting argument = .ok (.done done)) : done.wantsHelp = true := by
  rw [readArgument.eq_def] at read
  cases waiting with
  | some rule =>
    simp only at read
    split at read
    · obtain ⟨_, -, same⟩ := Except.map_eq_ok_iff.1 read
      cases same
    · cases read
  | none =>
    simp only at read
    split at read
    · next asked =>
      cases read
      exact asked
    · split at read
      case h_2 => cases read
      all_goals
        obtain ⟨_, -, same⟩ := Except.map_eq_ok_iff.1 read
        cases same

theorem readArgument_long {argument : String} {c : Char} {t : List Char} (quiet : g.wantsHelp = false)
    (shape : argument.toList = '-' :: '-' :: c :: t) :
    readArgument rules g none argument =
      (readLong rules g (c :: t)).map fun (g, waiting) => .next g waiting := by
  rw [readArgument.eq_def]
  simp only [quiet, shape]
  rfl

theorem add_of_readArguments {argument value : String} {c : Char} {t : List Char}
    {rest : List String} {rule : OptionRule} (quiet : g.wantsHelp = false)
    (shape : argument.toList = '-' :: '-' :: c :: t)
    (known : readLong rules g (c :: t) = (g.add rule value).map (·, none))
    (reads : readArguments rules g none (argument :: rest) = .ok more) :
    ∃ further, g.add rule value = .ok further ∧ readArguments rules further none rest = .ok more := by
  rw [Turn.readArguments_cons, readArgument_long quiet shape, known] at reads
  obtain ⟨turn, taken, reads⟩ := Except.bind_eq_ok_iff.1 reads
  obtain ⟨done, kept, rfl⟩ := Except.map_eq_ok_iff.1 taken
  obtain ⟨further, added, rfl⟩ := Except.map_eq_ok_iff.1 kept
  exact ⟨further, added, reads⟩

theorem add_of_readArguments_pair {argument value : String} {c : Char} {t : List Char}
    {rest : List String} {rule : OptionRule} (quiet : g.wantsHelp = false)
    (shape : argument.toList = '-' :: '-' :: c :: t)
    (known : readLong rules g (c :: t) = .ok (g, some rule))
    (reads : readArguments rules g none (argument :: value :: rest) = .ok more) :
    ∃ further, g.add rule value = .ok further ∧ readArguments rules further none rest = .ok more := by
  rw [Turn.readArguments_cons, readArgument_long quiet shape, known] at reads
  change readArguments rules g (some rule) (value :: rest) = .ok more at reads
  rw [Turn.readArguments_cons, readArgument.eq_def] at reads
  simp only at reads
  split at reads
  · obtain ⟨turn, taken, reads⟩ := Except.bind_eq_ok_iff.1 reads
    obtain ⟨further, added, rfl⟩ := Except.map_eq_ok_iff.1 taken
    exact ⟨further, added, reads⟩
  · cases reads

end Insertion

/-- The options that show more of a run or slow it down, as they stand among the arguments. -/
inductive Diagnostic : List String → Prop
  | trace : Diagnostic ["--trace"]
  | dumpState : Diagnostic ["--dump-state"]
  | interval (value : String) : Diagnostic ["--interval-us", value]
  | intervalEquals (value : String) : Diagnostic ["--interval-us=" ++ value]

def diagnosticNames : List String := ["trace", "dump-state", "interval-us"]

namespace Diagnostic
variable {added front back : List String} {g more less : Given} {waiting : Option OptionRule}

theorem exists_head (diagnostic : Diagnostic added) :
    ∃ head tail, added = head :: tail ∧ isValue head = false := by
  cases diagnostic with
  | trace => exact ⟨_, _, rfl, rfl⟩
  | dumpState => exact ⟨_, _, rfl, rfl⟩
  | interval value => exact ⟨_, _, rfl, rfl⟩
  | intervalEquals value =>
    refine ⟨_, _, rfl, ?_⟩
    have other : "--interval-us=" ++ value ≠ "-" := by
      intro same
      have := congrArg String.toList same
      rw [String.toList_append] at this
      cases this
    rw [isValue, beq_false_of_ne other, String.toList_append]
    rfl

theorem read (diagnostic : Diagnostic added) (quiet : g.wantsHelp = false)
    (reads : readArguments runRules g none (added ++ back) = .ok more) :
    ∃ entry further, entry.1 ∈ diagnosticNames ∧ Given.Beside entry g further ∧
      readArguments runRules further none back = .ok more := by
  have slow : "interval-us" ∈ diagnosticNames := by decide
  cases diagnostic with
  | trace =>
    obtain ⟨further, added, reads⟩ := add_of_readArguments quiet rfl rfl reads
    exact ⟨_, further, by decide, Given.beside_of_add added, reads⟩
  | dumpState =>
    obtain ⟨further, added, reads⟩ := add_of_readArguments quiet rfl rfl reads
    exact ⟨_, further, by decide, Given.beside_of_add added, reads⟩
  | interval value =>
    obtain ⟨further, added, reads⟩ := add_of_readArguments_pair quiet rfl rfl reads
    exact ⟨_, further, slow, Given.beside_of_add added, reads⟩
  | intervalEquals value =>
    have shape : ("--interval-us=" ++ value).toList =
        '-' :: '-' :: 'i' :: ("nterval-us=".toList ++ value.toList) := by
      rw [String.toList_append]
      rfl
    obtain ⟨further, added, reads⟩ := add_of_readArguments quiet shape rfl reads
    exact ⟨_, further, slow, Given.beside_of_add added, reads⟩

theorem beside (diagnostic : Diagnostic added)
    (plain : readArguments runRules g waiting (front ++ back) = .ok less)
    (reads : readArguments runRules g waiting (front ++ (added ++ back)) = .ok more)
    (quiet : more.wantsHelp = false) (operand : less.operand ≠ none) :
    ∃ entry, entry.1 ∈ diagnosticNames ∧ Given.Beside entry less more := by
  obtain ⟨head, tail, shape, flag⟩ := diagnostic.exists_head
  -- Both read the front alike, so only what has been read when the option comes matters.
  induction front generalizing g waiting with
  | nil =>
    rw [List.nil_append] at plain reads
    cases waiting with
    | some rule =>
      rw [shape, List.cons_append, Turn.readArguments_cons, readArgument.eq_def] at reads
      simp only [flag] at reads
      cases reads
    | none =>
      by_cases asked : g.wantsHelp
      · rw [shape, List.cons_append, Turn.readArguments_cons, readArgument.eq_def] at reads
        simp only [asked] at reads
        cases reads
        rw [asked] at quiet
        cases quiet
      · obtain ⟨entry, further, name, beside, reads⟩ :=
          diagnostic.read (Bool.eq_false_iff.2 asked) reads
        obtain ⟨found, alike, beside⟩ := readArguments_follows beside back _ reads
        cases plain.symm.trans alike
        exact ⟨entry, name, beside⟩
  | cons argument front ih =>
    rw [List.cons_append, Turn.readArguments_cons] at plain reads
    obtain ⟨turn, taken, plain⟩ := Except.bind_eq_ok_iff.1 plain
    obtain ⟨again, retaken, reads⟩ := Except.bind_eq_ok_iff.1 reads
    cases taken.symm.trans retaken
    cases turn with
    | next g waiting => exact ih plain reads
    | done g =>
      cases reads
      rw [wantsHelp_of_done taken] at quiet
      cases quiet
    | operands g =>
      -- Behind a double dash it would be a second operand.
      have few := Given.length_operands plain
      have many := Given.length_operands reads
      obtain ⟨path, some⟩ := Option.ne_none_iff_exists'.1 operand
      have one : more.operand.toList.length ≤ 1 := by cases more.operand <;> simp
      rw [some, Option.toList_some, List.length_singleton, List.length_append] at few
      rw [shape, List.length_append, List.length_append, List.length_cons] at many
      omega

end Diagnostic

/-! ### The invocation -/

theorem ofArguments_run_eq_ok_iff {arguments : List String} {path : String} {options : RunOptions} :
    Invocation.ofArguments ("run" :: arguments) = .ok (.run path options) ↔
      ∃ g, readArguments runRules .nothing none arguments = .ok g ∧ g.wantsHelp = false ∧
        g.operand = some path ∧ makeRun g path = .run path options := by
  change readCommand runRules arguments makeRun = _ ↔ _
  rw [readCommand, Except.bind_eq_ok_iff]
  refine exists_congr fun g => and_congr_right fun _ => ?_
  constructor
  · intro made
    split at made
    · cases made
    · next quiet =>
      refine ⟨Bool.eq_false_iff.2 quiet, ?_⟩
      split at made
      · next operand given =>
        cases made
        exact ⟨given, rfl⟩
      · cases made
  · rintro ⟨quiet, operand, made⟩
    simp only [quiet, operand, made]
    rfl

/-- A diagnostic option among the arguments of a run says nothing of the program, the configuration,
the limit or the output. -/
theorem Diagnostic.ofArguments {added front back : List String} {path place : String}
    {options choices : RunOptions} (diagnostic : Diagnostic added)
    (plain : Invocation.ofArguments ("run" :: (front ++ back)) = .ok (.run path options))
    (extended : Invocation.ofArguments ("run" :: (front ++ (added ++ back))) =
      .ok (.run place choices)) :
    place = path ∧ ∃ trace dumpState interval,
      choices = { options with trace, dumpState, interval } := by
  obtain ⟨less, read, -, operand, made⟩ := ofArguments_run_eq_ok_iff.1 plain
  obtain ⟨more, reads, quiet, operands, makes⟩ := ofArguments_run_eq_ok_iff.1 extended
  obtain ⟨entry, name, beside⟩ :=
    diagnostic.beside read reads quiet (operand ▸ Option.some_ne_none path)
  have kept {option : String} (other : option ∉ diagnosticNames) :
      more.options.lookup option = less.options.lookup option :=
    beside.lookup fun same => other (same ▸ name)
  have place : place = path := by
    rw [beside.operand, operand] at operands
    exact (Option.some.inj operands).symm
  cases made
  cases makes
  refine ⟨place, more.has "trace", more.has "dump-state", more.number? "interval-us", ?_⟩
  simp only [Given.number?, Given.value?, Given.has,
    kept (by decide : "config" ∉ diagnosticNames),
    kept (by decide : "max-cycles" ∉ diagnosticNames),
    kept (by decide : "decimal" ∉ diagnosticNames)]

end ByteMachine.CommandLine
