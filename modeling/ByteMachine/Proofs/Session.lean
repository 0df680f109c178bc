import ByteMachine.Proofs.Drivers
import ByteMachine.Proofs.Machine.Printing
import ByteMachine.Proofs.MemorySafety
import Mathlib.Data.List.DropRight

/-! A session over any sequence of calls. What is taken out of its buffer and what is still in
it are together what its machine has printed since it was put in place, and what a reset comes
to depends on the stored program alone. -/
namespace ByteMachine

namespace Machine

theorem after_add {σ : Type} [Sink σ] (m : Machine) (out : σ) (j k : Nat) :
    m.after out (j + k) = (m.after out j).1.after (m.after out j).2 k := by
  rw [after, Nat.add_comm, Function.iterate_add_apply]
  rfl

theorem proceed_buffer (m : Machine) (before out : Array UInt8) :
    proceed (m, before ++ out) = ((proceed (m, out)).1, before ++ (proceed (m, out)).2) := by
  obtain ⟨f, after, step⟩ | ⟨i, after, step⟩ | ⟨i, after, b, -, -, step⟩ := m.step_cases
  · simp only [proceed, step]
  · simp only [proceed, step]
  · simp only [proceed, step, write_buffer, Array.push_append]

theorem after_buffer (m : Machine) (before out : Array UInt8) (n : Nat) :
    m.after (before ++ out) n = ((m.after out n).1, before ++ (m.after out n).2) := by
  induction n with
  | zero => rfl
  | succ n ih => rw [after_succ, ih, proceed_buffer, after_succ]

theorem cycles_after_le {σ : Type} [Sink σ] (m : Machine) (out : σ) (n : Nat) :
    (m.after out n).1.cycles.toNat ≤ m.cycles.toNat + n := by
  induction n with
  | zero => exact Nat.le_refl _
  | succ n ih =>
    rw [after_succ, proceed]
    rcases done : (m.after out n).1.step (m.after out n).2 with ⟨f | i, now, written⟩
    · rw [(counted_of_step_error done).1]
      omega
    · have counted := (m.after out n).1.cycles.toNat_add 1
      rw [cycles_step_ok done, counted, UInt64.toNat_one]
      exact (Nat.mod_le _ _).trans (Nat.succ_le_succ ih)

end Machine

namespace Session

/-- The calls that can change a session; all others only look at it. -/
inductive Call where
  | loadSource (source : String)
  | loadImage (text : String)
  | step
  | run (budget : UInt32)
  | reset
  | takeOutput

inductive Answer where
  | done
  | size (n : Nat)
  | text (t : String)
  | cycles (n : UInt64)
  | taken (bytes : Array UInt8)

def call (s : Session) : Call → Except SessionError Answer × Session
  | .loadSource source => Prod.map (Except.map .size) id (s.loadSource source)
  | .loadImage text => Prod.map (Except.map .size) id (s.loadImage text)
  | .step => Prod.map (Except.map .text) id s.step
  | .run budget => Prod.map (Except.map .cycles) id (s.run budget)
  | .reset => Prod.map (Except.map fun _ => .done) id s.reset
  | .takeOutput => Prod.map (fun bytes => .ok (.taken bytes)) id s.takeOutput

def play (s : Session) (calls : List Call) : Session := calls.foldl (fun s c => (s.call c).2) s

def takenBy : Except SessionError Answer → List UInt8
  | .ok (.taken bytes) => bytes.toList
  | _ => []

def taken (s : Session) : List Call → List UInt8
  | [] => []
  | c :: rest => takenBy (s.call c).1 ++ (s.call c).2.taken rest

namespace Call

def isLoad : Call → Bool
  | loadSource _ | loadImage _ => true
  | step | run _ | reset | takeOutput => false

def program? : Call → Option (List UInt8)
  | loadSource source => (assemble source).toOption
  | loadImage text => ((Image.parse text.toList).map Image.bytes).toOption
  | step | run _ | reset | takeOutput => none

def replaces : Call → Bool
  | reset => true
  | c => c.program?.isSome

def steps : Call → Nat
  | step => 1
  | run budget => budget.toNat
  | loadSource _ | loadImage _ | reset | takeOutput => 0

end Call

def asked (calls : List Call) : Nat := (calls.map Call.steps).sum

/-- How many steps a call may make. A run that asks for more than can still be counted makes
none. -/
def allowed (s : Session) : Call → Nat
  | .run budget => s.machine.allowance budget.toUInt64
  | c => c.steps

def made (s : Session) : List Call → Nat
  | [] => 0
  | c :: rest => s.allowed c + (s.call c).2.made rest

theorem play_append (s : Session) (first second : List Call) :
    s.play (first ++ second) = (s.play first).play second := List.foldl_append

/-! ### Programs -/

section
variable {s : Session} {program : List UInt8} {m : Machine}

theorem size_fresh : Machine.fresh.mem.size = 256 := Array.size_replicate

theorem reset_of_fits (placed : Machine.fresh.load s.program = (.ok (), m)) :
    s.reset = (.ok (), ⟨m, s.program, #[]⟩) := by
  simp only [reset, placed]
  rfl

def tooLarge (program : List UInt8) : SessionError :=
  .memory (.programTooLarge program.length 256)

theorem reset_of_large (large : 256 < s.program.length) :
    s.reset = (.error (tooLarge s.program), ⟨.fresh, s.program, #[]⟩) := by
  have unfit : Machine.fresh.mem.size < 0 + s.program.length := by
    rw [size_fresh]
    omega
  have refused : Machine.fresh.load s.program =
      (.error (.programTooLarge s.program.length 256), .fresh) := by
    rw [Machine.load, Memory.load_of_unfit unfit, size_fresh]
  simp only [reset, refused, tooLarge]
  rfl

theorem load_of_large (large : 256 < program.length) (s : Session) :
    s.load program = (.error (tooLarge program), ⟨.fresh, program, #[]⟩) := by
  have refused := reset_of_large (s := { s with program }) large
  simp only [load, refused, Except.map]

theorem call_of_unread {c : Call} (load : c.isLoad) (unread : c.program? = none) (s : Session) :
    ∃ e, s.call c = (.error e, s) := by
  cases c with
  | loadSource source =>
    cases read : assemble source with
    | error e => exact ⟨.assembly e, by simp only [call, loadSource, read]; rfl⟩
    | ok program => simp [Call.program?, read, Except.toOption] at unread
  | loadImage text =>
    cases read : Image.parse text.toList with
    | error e => exact ⟨.image e, by simp only [call, loadImage, read]; rfl⟩
    | ok image => simp [Call.program?, read, Except.toOption, Except.map] at unread
  | step | run | reset | takeOutput => cases load

theorem call_of_program {c : Call} (given : c.program? = some program) (s : Session) :
    s.call c = Prod.map (Except.map .size) id (s.load program) := by
  cases c with
  | loadSource source =>
    cases read : assemble source with
    | error e => simp [Call.program?, read, Except.toOption] at given
    | ok assembled =>
      simp only [Call.program?, read, Except.toOption, Option.some.injEq] at given
      simp only [call, loadSource, read, given]
  | loadImage text =>
    cases read : Image.parse text.toList with
    | error e => simp [Call.program?, read, Except.toOption, Except.map] at given
    | ok image =>
      simp only [Call.program?, read, Except.toOption, Except.map, Option.some.injEq] at given
      simp only [call, loadImage, read, given]
  | step | run | reset | takeOutput => cases given

theorem program_reset (s : Session) : s.reset.2.program = s.program := by
  rw [reset]

theorem program_load (s : Session) : (s.load program).2.program = program :=
  program_reset { s with program }

theorem program_call {c : Call} (same : ∀ other ∈ c.program?, other = s.program) :
    (s.call c).2.program = s.program := by
  cases given : c.program? with
  | some program =>
    rw [call_of_program given]
    exact (program_load s).trans (same program given)
  | none =>
    cases c with
    | loadSource | loadImage =>
      obtain ⟨e, unread⟩ := call_of_unread rfl given s
      rw [unread]
    | step | run | takeOutput => rfl
    | reset => exact program_reset s

theorem program_play {later : List Call}
    (same : ∀ c ∈ later, ∀ other ∈ c.program?, other = s.program) :
    (s.play later).program = s.program := by
  induction later generalizing s with
  | nil => rfl
  | cons c later ih =>
    have first := program_call (same c List.mem_cons_self)
    have rest := fun c mem => first ▸ same c (List.mem_cons_of_mem _ mem)
    exact (ih rest).trans first

end

/-! ### Printing -/

/-- A session whose machine has not been stepped yet. -/
structure Begun (s : Session) : Prop where
  machine : s.machine = .powerOn s.machine.mem
  size : s.machine.mem.size = 256
  output : s.output = #[]

theorem begun_fresh : fresh.Begun := ⟨rfl, size_fresh, rfl⟩

theorem begun_reset (s : Session) : s.reset.2.Begun := by
  by_cases large : 256 < s.program.length
  · rw [reset_of_large large]
    exact ⟨rfl, size_fresh, rfl⟩
  · have fits := size_fresh ▸ Nat.le_of_not_lt large
    obtain ⟨m, placed⟩ := (Machine.fresh.load_isOk_iff s.program).2 fits
    obtain ⟨same, size, -⟩ := Machine.eq_powerOn_of_load placed
    rw [reset_of_fits placed]
    exact ⟨same, size.trans size_fresh, rfl⟩

theorem begun_of_replaces {c : Call} (replaces : c.replaces) (s : Session) :
    (s.call c).2.Begun := by
  cases given : c.program? with
  | some program =>
    rw [call_of_program given]
    exact begun_reset { s with program }
  | none =>
    cases c with
    | reset => exact begun_reset s
    | loadSource | loadImage => simp [Call.replaces, given] at replaces
    | step | run | takeOutput => cases replaces

/-- The calls up to the last one that puts another machine in place. -/
def begunBy (calls : List Call) : List Call := calls.rdropWhile fun c => !c.replaces

def sinceBegun (calls : List Call) : List Call := calls.rtakeWhile fun c => !c.replaces

theorem begunBy_append_sinceBegun (calls : List Call) : begunBy calls ++ sinceBegun calls = calls :=
  List.rdropWhile_append_rtakeWhile

theorem begun_play (calls : List Call) : (fresh.play (begunBy calls)).Begun := by
  by_cases none : begunBy calls = []
  · rw [none]
    exact begun_fresh
  · have replaces := List.rdropWhile_last_not _ _ none
    rw [Bool.not_eq_true, Bool.not_eq_false'] at replaces
    rw [← List.dropLast_append_getLast none, play_append]
    exact begun_of_replaces replaces _

theorem program?_of_keeps {c : Call} (keeps : c.replaces = false) : c.program? = none := by
  cases c with
  | loadSource | loadImage =>
    exact Option.isNone_iff_eq_none.1 (Option.isSome_eq_false_iff.1 keeps)
  | step | run | reset | takeOutput => rfl

theorem takenBy_map {α : Type} {f : α → Answer} (other : ∀ a, takenBy (.ok (f a)) = [])
    (result : Except SessionError α) : takenBy (result.map f) = [] := by
  cases result with
  | error e => rfl
  | ok a => exact other a

/-- A call that leaves the machine in place makes the steps it may make, and what it does not take
out of the buffer stays there. -/
theorem call_of_keeps {c : Call} (keeps : c.replaces = false) (s : Session) :
    (s.call c).2.machine = (s.machine.after s.output (s.allowed c)).1 ∧
      takenBy (s.call c).1 ++ (s.call c).2.output.toList =
        (s.machine.after s.output (s.allowed c)).2.toList := by
  cases c with
  | loadSource | loadImage =>
    obtain ⟨e, same⟩ := call_of_unread rfl (program?_of_keeps keeps) s
    rw [same]
    exact ⟨rfl, rfl⟩
  | step =>
    refine ⟨rfl, ?_⟩
    rw [call, Prod.map_fst, takenBy_map fun _ => rfl]
    rfl
  | run budget =>
    obtain ⟨machine, output⟩ := Prod.mk.inj (s.progress_run budget)
    refine ⟨machine, ?_⟩
    rw [call, Prod.map_fst, takenBy_map fun _ => rfl]
    exact congrArg Array.toList output
  | reset => cases keeps
  | takeOutput => exact ⟨rfl, List.append_nil _⟩

theorem play_of_keeps {calls : List Call} (keep : ∀ c ∈ calls, c.replaces = false) (s : Session) :
    (s.play calls).machine = (s.machine.after s.output (s.made calls)).1 ∧
      s.taken calls ++ (s.play calls).output.toList =
        (s.machine.after s.output (s.made calls)).2.toList := by
  induction calls generalizing s with
  | nil => exact ⟨rfl, rfl⟩
  | cons c rest ih =>
    obtain ⟨machine, output⟩ := call_of_keeps (keep c List.mem_cons_self) s
    obtain ⟨machines, outputs⟩ := ih (fun c mem => keep c (List.mem_cons_of_mem _ mem)) (s.call c).2
    -- The rest of the calls find in the buffer what the first one has left there.
    have later := (s.call c).2.machine.after_buffer (takenBy (s.call c).1).toArray
      (s.call c).2.output ((s.call c).2.made rest)
    have whole : (takenBy (s.call c).1).toArray ++ (s.call c).2.output =
        (s.machine.after s.output (s.allowed c)).2 := Array.ext' (by simpa using output)
    have total : s.machine.after s.output (s.made (c :: rest)) = _ :=
      s.machine.after_add s.output (s.allowed c) ((s.call c).2.made rest)
    rw [← machine, ← whole, later] at total
    rw [total]
    refine ⟨machines, ?_⟩
    rw [taken, List.append_assoc]
    simp only [Array.toList_append]
    exact congrArg (takenBy (s.call c).1 ++ ·) outputs

theorem made_eq_asked {calls : List Call} (keep : ∀ c ∈ calls, c.replaces = false) (s : Session)
    (few : s.machine.cycles.toNat + asked calls < 2 ^ 64) : s.made calls = asked calls := by
  induction calls generalizing s with
  | nil => rfl
  | cons c rest ih =>
    have total : asked (c :: rest) = c.steps + asked rest := List.sum_cons
    have first : s.allowed c = c.steps := by
      cases c with
      | run budget =>
        have steps : (Call.run budget).steps = budget.toUInt64.toNat := rfl
        exact Machine.allowance_of_fits (by omega)
      | loadSource | loadImage | step | reset | takeOutput => rfl
    have machine := (call_of_keeps (keep c List.mem_cons_self) s).1
    have counted := s.machine.cycles_after_le s.output (s.allowed c)
    rw [← machine, first] at counted
    rw [made, first, total, ih (fun c mem => keep c (List.mem_cons_of_mem _ mem)) _ (by omega)]

/-- In any sequence of calls the arrays that were taken since the machine was put in place, and
then the buffer, are what a machine right after power-on with the same memory prints in as many
steps as the calls may make, which are those they ask for as long as these can be counted. Text
that cannot be read is loaded without effect. A program that is too large is stored all the same,
beside an empty machine, and so fails each reset until another one is stored; one that fits is put
back by each reset just as it was after loading. -/
theorem calls_law :
    (∀ calls : List Call,
      let begun := fresh.play (begunBy calls)
      let now := fresh.play calls
      let steps := begun.made (sinceBegun calls)
      let plain := (Machine.powerOn begun.machine.mem).after #[] steps
      begun.machine.mem.size = 256 ∧ now.machine = plain.1 ∧
        begun.taken (sinceBegun calls) ++ now.output.toList = plain.2.toList ∧
        (asked (sinceBegun calls) < 2 ^ 64 → steps = asked (sinceBegun calls))) ∧
    (∀ (s : Session) (c : Call), c.isLoad → c.program? = none → ∃ e, s.call c = (.error e, s)) ∧
    (∀ (s : Session) (c : Call) (program : List UInt8), c.program? = some program →
      256 < program.length →
      let loaded : Session := ⟨.fresh, program, #[]⟩
      s.call c = (.error (tooLarge program), loaded) ∧
      ∀ later : List Call, (∀ c ∈ later, ∀ other ∈ c.program?, other = program) →
        (loaded.play later).call .reset = (.error (tooLarge program), loaded)) ∧
    (∀ (s : Session) (c : Call) (program : List UInt8), c.program? = some program →
      program.length ≤ 256 → ∃ m, Machine.fresh.load program = (.ok (), m) ∧
      let loaded : Session := ⟨m, program, #[]⟩
      s.call c = (.ok (.size program.length), loaded) ∧
      ∀ later : List Call, (∀ c ∈ later, ∀ other ∈ c.program?, other = program) →
        (loaded.play later).call .reset = (.ok .done, loaded)) := by
  refine ⟨fun calls => ?_, fun s c load unread => call_of_unread load unread s,
    fun s c program given large => ?_, fun s c program given fits => ?_⟩
  · intro begun now steps plain
    have start : begun.Begun := begun_play calls
    have keep : ∀ c ∈ sinceBegun calls, c.replaces = false := fun c mem => by
      simpa using List.mem_rtakeWhile_imp mem
    have now_eq : now = begun.play (sinceBegun calls) := by
      rw [← play_append, begunBy_append_sinceBegun]
    have printed := play_of_keeps keep begun
    have unused : begun.machine.cycles = 0 := congrArg Machine.cycles start.machine
    have few : asked (sinceBegun calls) < 2 ^ 64 → steps = asked (sinceBegun calls) :=
      fun few => made_eq_asked keep begun (by rwa [unused, UInt64.toNat_zero, Nat.zero_add])
    rw [start.output, start.machine, ← now_eq] at printed
    exact ⟨start.size, printed.1, printed.2, few⟩
  · intro loaded
    refine ⟨?_, fun later same => ?_⟩
    · rw [call_of_program given, load_of_large large]
      rfl
    · have kept : (loaded.play later).program = program := program_play same
      rw [call, reset_of_large (kept ▸ large), kept]
      rfl
  · obtain ⟨m, placed⟩ := (Machine.fresh.load_isOk_iff program).2 (size_fresh ▸ fits)
    refine ⟨m, placed, ?_, fun later same => ?_⟩
    · rw [call_of_program given, load_of_fits placed]
      rfl
    · have kept : (Session.play ⟨m, program, #[]⟩ later).program = program := program_play same
      rw [call, reset_of_fits (kept.symm ▸ placed), kept]
      rfl

def printingTwiceAndDividing : String := "PRN R0\nPRN R0\nDIV R0, R0"

/-- The first byte is taken before the run that prints the second one and ends with a fault, and a
text that does not assemble comes in between. -/
theorem calls_law_printingTwiceAndDividing :
    let since : List Call := [.step, .takeOutput, .run 5, .loadSource "DIV"]
    let calls : List Call := .loadSource printingTwiceAndDividing :: since
    let begun := fresh.play (begunBy calls)
    sinceBegun calls = since ∧ begun.taken since = [0] ∧
      begun.taken since ++ (fresh.play calls).output.toList = [0, 0] := by
  intro since calls begun
  have last : sinceBegun calls = since := rfl
  obtain ⟨-, -, printed, -⟩ := calls_law.1 calls
  refine ⟨last, by decide +kernel, ?_⟩
  rw [last] at printed
  refine printed.trans ?_
  decide +kernel

end Session

end ByteMachine
