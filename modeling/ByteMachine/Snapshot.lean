import ByteMachine.Json.Reader
import ByteMachine.Json.Record
import ByteMachine.Json.Writer
import ByteMachine.Machine

/-! Snapshots: registers, memories and whole machines as JSON. Every value is
written as an object with its fields in a fixed order; reading accepts any record
and refuses numbers that are too large and memories of an impossible size. -/
namespace ByteMachine

namespace Registers

def fieldNames : List String := ["general", "pc", "ir", "fl"]

def toJson (regs : Registers) : Json :=
  .record [("general", .bytes regs.toBytes), ("pc", .nat regs.pc.toNat),
    ("ir", .nat regs.ir.toNat), ("fl", .nat regs.fl.toNat)]

def general? (bytes : List UInt8) : Option (Vector UInt8 8) :=
  if h : bytes.toArray.size = 8 then some ⟨bytes.toArray, h⟩ else none

def ofJson? (v : Json) : Option Registers :=
  match v.fields? fieldNames with
  | some [some general, some pc, some ir, some fl] => do
    return ⟨← general? (← general.asBytes?), ← pc.asByte?, ← ir.asByte?, ← fl.asByte?⟩
  | _ => none

def snapshot (regs : Registers) : String := regs.toJson.render

def restore? (text : String) : Option Registers := (Json.parse text).bind ofJson?

end Registers

namespace Memory

def fieldNames : List String := ["cells"]

def toJson (m : Memory) : Json := .record [("cells", .bytes m.toList)]

def ofJson? (v : Json) : Option Memory :=
  match v.fields? fieldNames with
  | some [some cells] => do (ofCells (← cells.asBytes?)).toOption
  | _ => none

def snapshot (m : Memory) : String := m.toJson.render

def restore? (text : String) : Option Memory := (Json.parse text).bind ofJson?

end Memory

namespace Instruction

def fieldNames : List String := ["opcode", "operand_a", "operand_b"]

def toJson (i : Instruction) : Json :=
  .record [("opcode", .string i.opcode.name), ("operand_a", .nat i.a.toNat),
    ("operand_b", .nat i.b.toNat)]

def ofJson? (v : Json) : Option Instruction :=
  match v.fields? fieldNames with
  | some [some opcode, some a, some b] => do
    return ⟨← Opcode.ofName? (← opcode.asName?), ← a.asByte?, ← b.asByte?⟩
  | _ => none

end Instruction

namespace Machine

def fieldNames : List String := ["regs", "mem", "state", "cycles", "last_instr"]

def toJson (m : Machine) : Json :=
  .record [("regs", m.regs.toJson), ("mem", m.mem.toJson), ("state", .string m.state.name),
    ("cycles", .nat m.cycles.toNat), ("last_instr", (m.last.map Instruction.toJson).getD .null)]

/-- The instruction executed last; null and, in an object, a missing field mean none. -/
def last? : Option Json → Option (Option Instruction)
  | none | some .null => some none
  | some v => (Instruction.ofJson? v).map some

def ofJson? (v : Json) : Option Machine :=
  if v.isShort fieldNames then none
  else match v.fields? fieldNames with
    | some [some regs, some mem, some state, some cycles, last] => do
      return {
        regs := ← Registers.ofJson? regs
        mem := ← Memory.ofJson? mem
        state := ← RunState.ofName? (← state.asName?)
        cycles := ← cycles.asWord?
        last := ← last? last }
    | _ => none

def snapshot (m : Machine) : String := m.toJson.render

def restore? (text : String) : Option Machine := (Json.parse text).bind ofJson?

end Machine

end ByteMachine
