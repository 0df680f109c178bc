import ByteMachine.Snapshot

/-! Configurations: how a machine is built and driven. In JSON any field may be
left out and takes its default then. -/
namespace ByteMachine

structure Configuration where
  memorySize : UInt64
  /-- How many instructions may be executed; zero means any number. -/
  maxCycles : UInt64
  output : Presentation
  /-- The pause between two instructions in microseconds. -/
  stepInterval : UInt64
deriving DecidableEq

inductive ConfigurationError where
  | unreadable
  | memory (e : MemoryError)
deriving DecidableEq

namespace Configuration

def standard : Configuration := ⟨256, 100000, .raw, 0⟩

instance : Inhabited Configuration := ⟨standard⟩

def fieldNames : List String := ["memory_size", "max_cycles", "output", "step_interval_us"]

def toJson (c : Configuration) : Json :=
  .record [("memory_size", .nat c.memorySize.toNat), ("max_cycles", .nat c.maxCycles.toNat),
    ("output", .string c.output.name), ("step_interval_us", .nat c.stepInterval.toNat)]

def orDefault {α : Type} (default : α) (read : Json → Option α) : Option Json → Option α
  | none => some default
  | some v => read v

def ofJson? (v : Json) : Option Configuration :=
  match v.fields? fieldNames with
  | some [memorySize, maxCycles, output, stepInterval] => do
    return {
      memorySize := ← orDefault standard.memorySize Json.asWord? memorySize
      maxCycles := ← orDefault standard.maxCycles Json.asWord? maxCycles
      output := ← orDefault standard.output (fun v => v.asName?.bind Presentation.ofName?) output
      stepInterval := ← orDefault standard.stepInterval Json.asWord? stepInterval }
  | _ => none

def render (c : Configuration) : String := c.toJson.render

def build (c : Configuration) : Except MemoryError Machine :=
  (Memory.ofSize c.memorySize.toNat).map Machine.powerOn

theorem build_of_validSize {c : Configuration} (valid : ValidSize c.memorySize.toNat) :
    c.build = .ok (.powerOn (.zeros c.memorySize.toNat valid)) := by
  rw [build, Memory.ofSize, dif_pos valid]
  rfl

def parse (text : String) : Except ConfigurationError Configuration :=
  match (Json.parse text).bind ofJson? with
  | none => .error .unreadable
  | some c =>
    if ValidSize c.memorySize.toNat then .ok c
    else .error (.memory (.invalidSize c.memorySize.toNat))

def cycleLimit (c : Configuration) : Option UInt64 :=
  if c.maxCycles = 0 then none else some c.maxCycles

end Configuration

end ByteMachine
