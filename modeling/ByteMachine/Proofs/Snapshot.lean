import ByteMachine.Proofs.Json.RoundTrip
import ByteMachine.Proofs.Machine.Run
import ByteMachine.Snapshot

/-! Machines that are put away as text and taken up again. A snapshot is read back as the
machine it was taken of, in every part of it, so a run may be broken off and taken up from a
snapshot before any of its steps. What an opcode does belongs to no machine and is not in
the snapshot. -/
namespace ByteMachine

theorem Registers.ofJson?_toJson (regs : Registers) : ofJson? regs.toJson = some regs := by
  have fields : regs.toJson.fields? fieldNames = some [some (.bytes regs.toBytes),
      some (.nat regs.pc.toNat), some (.nat regs.ir.toNat), some (.nat regs.fl.toNat)] :=
    Json.fields?_record rfl (by decide)
  have general : general? regs.toBytes = some regs.general := dif_pos (by simp [toBytes])
  simp only [ofJson?, fields, Json.asBytes?_bytes, Json.asByte?_nat, Option.bind_eq_bind,
    Option.bind_some, general]
  rfl

theorem Registers.plain_toJson (regs : Registers) : regs.toJson.Plain :=
  .record ⟨.bytes _, .nat _, .nat _, .nat _⟩

theorem Memory.ofCells_toList (m : Memory) : ofCells m.toList = .ok m := dif_pos m.valid

theorem Memory.ofJson?_toJson (m : Memory) : ofJson? m.toJson = some m := by
  have fields : m.toJson.fields? fieldNames = some [some (.bytes m.toList)] :=
    Json.fields?_record rfl (by decide)
  simp only [ofJson?, fields, Json.asBytes?_bytes, Option.bind_eq_bind, Option.bind_some,
    ofCells_toList]
  rfl

theorem Memory.plain_toJson (m : Memory) : m.toJson.Plain := .record (.bytes _)

theorem Instruction.ofJson?_toJson (i : Instruction) : ofJson? i.toJson = some i := by
  have fields : i.toJson.fields? fieldNames = some [some (.string i.opcode.name),
      some (.nat i.a.toNat), some (.nat i.b.toNat)] := Json.fields?_record rfl (by decide)
  have name : (Json.string i.opcode.name).asName? = some i.opcode.name := rfl
  simp only [ofJson?, fields, name, Json.asByte?_nat, Opcode.ofName?_name, Option.bind_eq_bind,
    Option.bind_some]
  rfl

theorem Instruction.plain_toJson (i : Instruction) : i.toJson.Plain :=
  .record ⟨.string _, .nat _, .nat _⟩

namespace Machine

def lastJson (last : Option Instruction) : Json := (last.map Instruction.toJson).getD .null

theorem last?_lastJson (last : Option Instruction) : last? (some (lastJson last)) = some last := by
  cases last with
  | none => rfl
  | some i => exact congrArg (Option.map some) i.ofJson?_toJson

theorem plain_lastJson (last : Option Instruction) : (lastJson last).Plain := by
  cases last with
  | none => exact .null
  | some i => exact i.plain_toJson

theorem ofJson?_toJson (m : Machine) : ofJson? m.toJson = some m := by
  have fields : m.toJson.fields? fieldNames = some [some m.regs.toJson, some m.mem.toJson,
      some (.string m.state.name), some (.nat m.cycles.toNat), some (lastJson m.last)] :=
    Json.fields?_record rfl (by decide)
  have whole : m.toJson.isShort fieldNames = false := rfl
  have name : (Json.string m.state.name).asName? = some m.state.name := rfl
  simp only [ofJson?, whole, fields, name, Json.asWord?_nat m.cycles.toNat_lt,
    Registers.ofJson?_toJson, Memory.ofJson?_toJson, RunState.ofName?_name, last?_lastJson,
    Option.bind_eq_bind, Option.bind_some, UInt64.ofNat_toNat]
  rfl

theorem plain_toJson (m : Machine) : m.toJson.Plain :=
  .record ⟨m.regs.plain_toJson, m.mem.plain_toJson, .string _, .nat _, plain_lastJson m.last⟩

theorem restore?_snapshot (m : Machine) : restore? m.snapshot = some m := by
  rw [restore?, snapshot, Json.parse_render m.plain_toJson, Option.bind_some, ofJson?_toJson]

variable {σ : Type} [Sink σ]

def steps : Nat → Machine → σ → List (Outcome σ Instruction)
  | 0, _, _ => []
  | n + 1, m, out =>
    let done := m.step out
    done :: steps n done.machine done.out

def renewed? (mark : Bool) (m : Machine) : Option Machine :=
  if mark then restore? m.snapshot else some m

/-- What comes of a step for each mark, if the machine is replaced by what is read from its
snapshot before each step whose mark is set. -/
def stepsRestoring : List Bool → Machine → σ → Option (List (Outcome σ Instruction))
  | [], _, _ => some []
  | mark :: marks, m, out => do
    let m ← m.renewed? mark
    let done := m.step out
    return done :: (← stepsRestoring marks done.machine done.out)

theorem stepsRestoring_eq (marks : List Bool) (m : Machine) (out : σ) :
    stepsRestoring marks m out = some (steps marks.length m out) := by
  induction marks generalizing m out with
  | nil => rfl
  | cons mark marks ih =>
    -- Read from a snapshot or not, the machine that makes the step is the same.
    have first : m.renewed? mark = some m := by
      cases mark with
      | false => rfl
      | true => exact m.restore?_snapshot
    simp only [stepsRestoring, first, ih, Option.bind_eq_bind, Option.bind_some]
    rfl

/-- A machine is read back from its snapshot, whatever its memory, its registers, its state, its
count and what it executed last, and a run takes no notice of the steps before which that is
done. -/
theorem restore?_snapshot_steps (m : Machine) (out : σ) :
    restore? m.snapshot = some m ∧
      ∀ marks : List Bool, stepsRestoring marks m out = some (steps marks.length m out) :=
  ⟨m.restore?_snapshot, fun marks => stepsRestoring_eq marks m out⟩

end Machine

end ByteMachine
