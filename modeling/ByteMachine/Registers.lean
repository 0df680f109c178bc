import ByteMachine.Text.Numeral

/-! The register file: eight general registers, the last of which is the stack
pointer, and three control registers that no operand can reach. The flag
register holds the outcome of the last comparison in its low three bits. -/
namespace ByteMachine

abbrev Register := Fin 8

structure RegisterError where
  index : UInt8
deriving DecidableEq

def RegisterError.message (e : RegisterError) : String :=
  s!"invalid register index {e.index.toNat} (expected 0-7)"

namespace Register

def ofByte (b : UInt8) : Except RegisterError Register :=
  if h : b.toNat < 8 then .ok ⟨b.toNat, h⟩ else .error ⟨b⟩

def toByte (r : Register) : UInt8 := UInt8.ofNat r

theorem ofByte_of_lt {b : UInt8} (h : b.toNat < 8) : ofByte b = .ok ⟨b.toNat, h⟩ := dif_pos h

theorem ofByte_of_not_lt {b : UInt8} (h : ¬ b.toNat < 8) : ofByte b = .error ⟨b⟩ := dif_neg h

theorem ofByte_toByte (r : Register) : ofByte r.toByte = .ok r := by
  have value : r.toByte.toNat = r.val := by
    have := r.isLt
    simp only [toByte, UInt8.toNat_ofNat']
    omega
  have lt : r.toByte.toNat < 8 := value ▸ r.isLt
  rw [ofByte_of_lt lt]
  exact congrArg Except.ok (Fin.ext value)

def stackPointer : Register := 7

end Register

structure Registers where
  general : Vector UInt8 8
  pc : UInt8
  ir : UInt8
  /-- The flags: bit 0 equal, bit 1 greater, bit 2 less. -/
  fl : UInt8
deriving DecidableEq

namespace Registers

def stackTop : UInt8 := 0xF3

def powerOn : Registers := ⟨#v[0, 0, 0, 0, 0, 0, 0, stackTop], 0, 0, 0⟩

instance : Inhabited Registers := ⟨powerOn⟩

def get (regs : Registers) (r : Register) : UInt8 := regs.general[r]

def set (regs : Registers) (r : Register) (value : UInt8) : Registers :=
  { regs with general := regs.general.set r value }

theorem get_set (regs : Registers) (r s : Register) (value : UInt8) :
    (regs.set r value).get s = if s = r then value else regs.get s := by
  simp only [get, set, Fin.getElem_fin, Vector.getElem_set, Fin.ext_iff]
  split <;> split <;> first | rfl | omega

def read (regs : Registers) (index : UInt8) : Except RegisterError UInt8 :=
  (Register.ofByte index).map regs.get

def write (regs : Registers) (index value : UInt8) : Except RegisterError Registers :=
  (Register.ofByte index).map fun r => regs.set r value

theorem read_of_ofByte {index : UInt8} {r : Register} (h : Register.ofByte index = .ok r)
    (regs : Registers) : regs.read index = .ok (regs.get r) := by
  rw [read, h]
  rfl

theorem read_of_ofByte_error {index : UInt8} {e : RegisterError}
    (h : Register.ofByte index = .error e) (regs : Registers) : regs.read index = .error e := by
  rw [read, h]
  rfl

theorem write_of_ofByte {index : UInt8} {r : Register} (h : Register.ofByte index = .ok r)
    (regs : Registers) (value : UInt8) : regs.write index value = .ok (regs.set r value) := by
  rw [write, h]
  rfl

theorem write_of_ofByte_error {index : UInt8} {e : RegisterError}
    (h : Register.ofByte index = .error e) (regs : Registers) (value : UInt8) :
    regs.write index value = .error e := by
  rw [write, h]
  rfl

def sp (regs : Registers) : UInt8 := regs.get .stackPointer

def setSp (regs : Registers) (address : UInt8) : Registers := regs.set .stackPointer address

theorem write_stackPointer (regs : Registers) (value : UInt8) :
    regs.write Register.stackPointer.toByte value = .ok (regs.setSp value) :=
  write_of_ofByte (Register.ofByte_toByte _) regs value

/-- The power-on state beside a memory of `size` cells. Where the usual start of
the stack lies outside memory, the stack starts at zero and grows down from the
last cell. -/
def forMemory (size : Nat) : Registers :=
  if size ≤ stackTop.toNat then powerOn.setSp 0 else powerOn

def equalFlag : UInt8 := 1

def greaterFlag : UInt8 := 2

def lessFlag : UInt8 := 4

def flagOf : Ordering → UInt8
  | .eq => equalFlag
  | .gt => greaterFlag
  | .lt => lessFlag

/-- Records a comparison: one of the three flags is set, the other two are
cleared, and the upper five bits stay. -/
def setCompare (regs : Registers) (order : Ordering) : Registers :=
  { regs with fl := (regs.fl &&& 0xF8) ||| flagOf order }

def equal (regs : Registers) : Bool := regs.fl &&& equalFlag != 0

def greater (regs : Registers) : Bool := regs.fl &&& greaterFlag != 0

def less (regs : Registers) : Bool := regs.fl &&& lessFlag != 0

def flags (regs : Registers) : String :=
  String.ofList [if regs.less then 'L' else '-', if regs.greater then 'G' else '-',
    if regs.equal then 'E' else '-']

def toBytes (regs : Registers) : List UInt8 := regs.general.toList

def describe (regs : Registers) : String :=
  let general := ", ".intercalate (regs.toBytes.map fun b => toString b.toNat)
  s!"Registers \x7b general: [{general}], " ++
    s!"pc: {regs.pc.toNat}, ir: {regs.ir.toNat}, fl: {regs.fl.toNat} \x7d"

end Registers

end ByteMachine
