import ByteMachine.Text.Numeral

/-! The memory of the machine: between one and 256 cells of a byte each, their
number a power of two, shared by code, data and the stack. Addresses are bytes;
`wrap` folds any offset onto them, so a fetch that runs over the last cell goes
on at the first. -/
namespace ByteMachine

def ValidSize (n : Nat) : Prop := n ≤ 256 ∧ n.isPowerOfTwo

instance (n : Nat) : Decidable (ValidSize n) := inferInstanceAs (Decidable (_ ∧ _))

theorem ValidSize.pos {n : Nat} (h : ValidSize n) : 0 < n := Nat.pos_of_isPowerOfTwo h.2

inductive MemoryError where
  | addressOutOfRange (address : UInt8) (size : Nat)
  | programTooLarge (size available : Nat)
  | invalidSize (size : Nat)
deriving DecidableEq

def MemoryError.message : MemoryError → String
  | .addressOutOfRange address size =>
    s!"memory address 0x{String.ofList (Text.hexLower address.toNat)} out of range (size {size})"
  | .programTooLarge size available => s!"program size {size} exceeds available space {available}"
  | .invalidSize size => s!"invalid memory size {size} (must be a power of two, 1-256)"

structure Memory where
  cells : Array UInt8
  valid : ValidSize cells.size
deriving DecidableEq

namespace Memory

def fullSize : Nat := 256

def zeros (size : Nat) (h : ValidSize size) : Memory :=
  ⟨Array.replicate size 0, by simpa using h⟩

def full : Memory := zeros fullSize (by decide)

instance : Inhabited Memory := ⟨full⟩

def ofSize (size : Nat) : Except MemoryError Memory :=
  if h : ValidSize size then .ok (zeros size h) else .error (.invalidSize size)

def ofCells (cells : List UInt8) : Except MemoryError Memory :=
  if h : ValidSize cells.toArray.size then .ok ⟨cells.toArray, h⟩
  else .error (.invalidSize cells.length)

def size (m : Memory) : Nat := m.cells.size

def toList (m : Memory) : List UInt8 := m.cells.toList

theorem size_pos (m : Memory) : 0 < m.size := m.valid.pos

theorem size_le (m : Memory) : m.size ≤ 256 := m.valid.1

theorem length_toList (m : Memory) : m.toList.length = m.size := by simp [toList, size]

def read (m : Memory) (address : UInt8) : Except MemoryError UInt8 :=
  if h : address.toNat < m.cells.size then .ok m.cells[address.toNat]
  else .error (.addressOutOfRange address m.size)

def write (m : Memory) (address value : UInt8) : Except MemoryError Memory :=
  if h : address.toNat < m.cells.size then
    .ok ⟨m.cells.set address.toNat value, by simpa using m.valid⟩
  else .error (.addressOutOfRange address m.size)

/-- The content of a cell, zero outside of memory. -/
def cell (m : Memory) (address : Nat) : UInt8 := m.cells.getD address 0

theorem read_of_lt {m : Memory} {address : UInt8} (h : address.toNat < m.size) :
    m.read address = .ok (m.cell address.toNat) := by
  unfold size at h
  simp [read, cell, h]

theorem read_of_not_lt {m : Memory} {address : UInt8} (h : ¬ address.toNat < m.size) :
    m.read address = .error (.addressOutOfRange address m.size) := dif_neg h

theorem read_eq_ok_iff {m : Memory} {address value : UInt8} :
    m.read address = .ok value ↔ address.toNat < m.size ∧ m.cell address.toNat = value := by
  by_cases h : address.toNat < m.size
  · simp [read_of_lt h, h]
  · simp [read_of_not_lt h, h]

theorem write_isOk {m : Memory} {address : UInt8} (h : address.toNat < m.size) (value : UInt8) :
    ∃ after, m.write address value = .ok after := ⟨_, dif_pos h⟩

theorem write_of_not_lt {m : Memory} {address : UInt8} (h : ¬ address.toNat < m.size)
    (value : UInt8) : m.write address value = .error (.addressOutOfRange address m.size) := dif_neg h

theorem size_write {m after : Memory} {address value : UInt8}
    (h : m.write address value = .ok after) : after.size = m.size := by
  unfold write at h
  split at h
  · cases h
    simp [size]
  · cases h

theorem cell_write {m after : Memory} {address value : UInt8}
    (h : m.write address value = .ok after) (k : Nat) :
    after.cell k = if k = address.toNat then value else m.cell k := by
  unfold write at h
  split at h
  · next lt =>
    cases h
    simp only [cell, Array.getD_eq_getD_getElem?, Array.getElem?_set, eq_comm (a := k)]
    split <;> simp_all
  · cases h

/-- The address an offset falls on when addresses repeat after the last cell.
The size is a power of two, so the low bits of the offset are its remainder. -/
def wrap (m : Memory) (offset : Nat) : UInt8 := UInt8.ofNat (offset &&& (m.size - 1))

theorem wrap_toNat (m : Memory) (offset : Nat) : (m.wrap offset).toNat = offset % m.size := by
  obtain ⟨k, power⟩ := m.valid.2
  have mask : offset &&& (m.size - 1) = offset % m.size := by
    rw [size, power, Nat.and_two_pow_sub_one_eq_mod]
  have lt : offset % m.size < 256 := Nat.lt_of_lt_of_le (Nat.mod_lt _ m.size_pos) m.size_le
  rw [wrap, mask, UInt8.toNat_ofNat', Nat.mod_eq_of_lt lt]

theorem size_dvd (m : Memory) : m.size ∣ 256 := by
  obtain ⟨k, power⟩ := m.valid.2
  have le := m.size_le
  rw [size, power] at le ⊢
  exact Nat.pow_dvd_pow 2 ((Nat.pow_le_pow_iff_right (by decide) (m := 8)).1 le)

theorem wrap_add_toNat (m : Memory) (address : UInt8) (k : Nat) :
    (m.wrap (address + UInt8.ofNat k).toNat).toNat = (address.toNat + k) % m.size := by
  rw [wrap_toNat, UInt8.toNat_add, UInt8.toNat_ofNat', Nat.add_mod_mod]
  exact Nat.mod_mod_of_dvd _ m.size_dvd

theorem read_wrap (m : Memory) (offset : Nat) :
    m.read (m.wrap offset) = .ok (m.cell (offset % m.size)) := by
  have lt : (m.wrap offset).toNat < m.size := wrap_toNat m offset ▸ Nat.mod_lt _ m.size_pos
  rw [read_of_lt lt, wrap_toNat]

def next (m : Memory) (address : UInt8) : UInt8 :=
  if address.toNat + 1 = m.size then 0 else address + 1

theorem next_toNat (m : Memory) {address : UInt8} (h : address.toNat < m.size) :
    (m.next address).toNat = (address.toNat + 1) % m.size := by
  have le := m.size_le
  unfold next
  split
  · next last => simp [last]
  · next inner =>
    rw [UInt8.toNat_add, Nat.mod_eq_of_lt (b := m.size) (by omega)]
    exact Nat.mod_eq_of_lt (by simp; omega)

def prev (m : Memory) (address : UInt8) : UInt8 :=
  if address = 0 then UInt8.ofNat (m.size - 1) else address - 1

theorem prev_toNat (m : Memory) {address : UInt8} (h : address.toNat < m.size) :
    (m.prev address).toNat = (address.toNat + m.size - 1) % m.size := by
  have le := m.size_le
  unfold prev
  split
  · next first =>
    subst first
    simp only [UInt8.toNat_ofNat', UInt8.toNat_zero] at h ⊢
    rw [Nat.zero_add, Nat.mod_eq_of_lt (by omega), Nat.mod_eq_of_lt (by omega)]
  · next inner =>
    have pos : 0 < address.toNat := by
      rw [Nat.pos_iff_ne_zero]
      exact fun zero => inner (UInt8.toNat_inj.1 zero)
    have one : (1 : UInt8) ≤ address := UInt8.le_iff_toNat_le.2 pos
    have split : address.toNat + m.size - 1 = address.toNat - 1 + m.size := by omega
    rw [UInt8.toNat_sub_of_le _ _ one, split, Nat.add_mod_right]
    exact (Nat.mod_eq_of_lt (by omega)).symm

def clear (m : Memory) : Memory := zeros m.size m.valid

def load (m : Memory) (start : Nat) (program : List UInt8) : Except MemoryError Unit × Memory :=
  if h : program.length ≤ m.size - start ∧ start ≤ m.size then
    (.ok (), {
      cells := (m.toList.take start ++ program ++ m.toList.drop (start + program.length)).toArray
      valid := by
        have size : (m.toList.take start ++ program ++
            m.toList.drop (start + program.length)).toArray.size = m.cells.size := by
          simp only [List.size_toArray, List.length_append, List.length_take, List.length_drop,
            length_toList]
          unfold Memory.size at h ⊢
          omega
        exact size ▸ m.valid })
  else (.error (.programTooLarge program.length (m.size - start)), m)

theorem toList_load {m after : Memory} {start : Nat} {program : List UInt8}
    (h : m.load start program = (.ok (), after)) :
    after.toList = m.toList.take start ++ program ++ m.toList.drop (start + program.length) := by
  unfold load at h
  split at h
  · cases h
    rfl
  · cases h

theorem load_isOk_iff (m : Memory) (start : Nat) (program : List UInt8) :
    (∃ after, m.load start program = (.ok (), after)) ↔ start + program.length ≤ m.size := by
  unfold load
  split
  · next fits => exact iff_of_true ⟨_, rfl⟩ (by omega)
  · next unfit => exact iff_of_false nofun (by omega)

theorem load_of_unfit {m : Memory} {start : Nat} {program : List UInt8}
    (unfit : m.size < start + program.length) :
    m.load start program = (.error (.programTooLarge program.length (m.size - start)), m) :=
  dif_neg (by omega)

def dump (m : Memory) (start count : Nat) : List (Nat × UInt8) :=
  ((m.toList.zipIdx.drop start).take count).map (fun (value, address) => (address, value))

def describe (m : Memory) : String :=
  let used := m.toList.countP (· != 0)
  s!"Memory \x7b non_zero_cells: {used}, total_cells: {m.size} \x7d"

end Memory

end ByteMachine
