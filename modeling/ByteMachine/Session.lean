import ByteMachine.Assembly.Draft
import ByteMachine.Image
import ByteMachine.Listing
import ByteMachine.Machine

/-! A session: the full machine together with the program it was loaded with and
what it has printed and nobody has taken yet. -/
namespace ByteMachine

structure Session where
  machine : Machine
  program : List UInt8
  output : Array UInt8

inductive SessionError where
  | assembly (e : Assembly.Error)
  | image (e : ImageError)
  | memory (e : MemoryError)
  | fault (f : Fault)
deriving DecidableEq

def SessionError.message : SessionError → String
  | .assembly e => e.message
  | .image e => e.message
  | .memory e => e.message
  | .fault f => f.message

namespace Session

def fresh : Session := ⟨.fresh, [], #[]⟩

instance : Inhabited Session := ⟨fresh⟩

def reset (s : Session) : Except SessionError Unit × Session :=
  let (result, machine) := Machine.fresh.load s.program
  (result.mapError .memory, { s with machine, output := #[] })

def load (s : Session) (program : List UInt8) : Except SessionError Nat × Session :=
  let (result, s) := reset { s with program }
  (result.map fun _ => program.length, s)

def loadSource (s : Session) (source : String) : Except SessionError Nat × Session :=
  match assemble source with
  | .ok program => s.load program
  | .error e => (.error (.assembly e), s)

def loadImage (s : Session) (text : String) : Except SessionError Nat × Session :=
  match Image.parse text.toList with
  | .ok image => s.load image.bytes
  | .error e => (.error (.image e), s)

def step (s : Session) : Except SessionError String × Session :=
  let done := s.machine.step s.output
  ((done.result.mapError .fault).map Instruction.text,
    { s with machine := done.machine, output := done.out })

/-- Executes at most `budget` instructions. The result is the count since power-on. -/
def run (s : Session) (budget : UInt32) : Except SessionError UInt64 × Session :=
  let done := s.machine.runLimited budget.toUInt64 s.output
  ((done.result.mapError .fault).map fun _ => done.machine.cycles,
    { s with machine := done.machine, output := done.out })

def takeOutput (s : Session) : Array UInt8 × Session := (s.output, { s with output := #[] })

def register? (s : Session) (index : UInt8) : Option UInt8 :=
  ((Register.ofByte index).map s.machine.regs.get).toOption

def cell (s : Session) (address : UInt8) : UInt8 :=
  match s.machine.mem.read address with
  | .ok value => value
  | .error _ => 0

def itemText (s : Session) (address : UInt8) : String :=
  (Item.atAddress s.machine.mem.toList address.toNat).text

end Session

end ByteMachine
