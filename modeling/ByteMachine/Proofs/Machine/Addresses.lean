import ByteMachine.Machine

/-! Arithmetic on addresses. The mask that folds an offset onto the cells, the sum in a byte that
is folded afterwards and the two neighbours of a cell are all remainders by the size of memory:
the size is a power of two that divides 256, so nothing that overflows a byte changes them. -/
namespace ByteMachine

namespace Memory
variable {m : Memory} {address : UInt8}

theorem wrap_word (m : Memory) (offset : UInt64) :
    m.wrap offset.toNat = (offset &&& (UInt64.ofNat m.size - 1)).toUInt8 := by
  have pos := m.size_pos
  have le := m.size_le
  have word : (UInt64.ofNat m.size).toNat = m.size := by
    rw [UInt64.toNat_ofNat']
    omega
  have one : (1 : UInt64) ≤ UInt64.ofNat m.size := by
    rw [UInt64.le_iff_toNat_le, word]
    exact pos
  have mask : (UInt64.ofNat m.size - 1).toNat = m.size - 1 := by
    rw [UInt64.toNat_sub_of_le _ _ one, word]
    rfl
  apply UInt8.toNat_inj.1
  rw [wrap, UInt8.toNat_ofNat', UInt64.toNat_toUInt8, UInt64.toNat_and, mask]

theorem next_lt (inside : address.toNat < m.size) : (m.next address).toNat < m.size := by
  rw [m.next_toNat inside]
  exact Nat.mod_lt _ m.size_pos

theorem prev_lt (inside : address.toNat < m.size) : (m.prev address).toNat < m.size := by
  rw [m.prev_toNat inside]
  exact Nat.mod_lt _ m.size_pos

theorem add_one_add_pred (m : Memory) (address : UInt8) :
    address.toNat + 1 + (m.size - 1) = address.toNat + m.size := by
  have pos := m.size_pos
  omega

theorem prev_next (inside : address.toNat < m.size) : m.prev (m.next address) = address := by
  have pos := m.size_pos
  apply UInt8.toNat_inj.1
  calc (m.prev (m.next address)).toNat
      = ((address.toNat + 1) % m.size + (m.size - 1)) % m.size := by
        rw [m.prev_toNat (next_lt inside), m.next_toNat inside, Nat.add_sub_assoc pos]
    _ = (address.toNat + m.size) % m.size := by rw [Nat.mod_add_mod, m.add_one_add_pred]
    _ = address.toNat := by rw [Nat.add_mod_right, Nat.mod_eq_of_lt inside]

theorem next_prev (inside : address.toNat < m.size) : m.next (m.prev address) = address := by
  have pos := m.size_pos
  apply UInt8.toNat_inj.1
  calc (m.next (m.prev address)).toNat
      = ((address.toNat + (m.size - 1)) % m.size + 1) % m.size := by
        rw [m.next_toNat (prev_lt inside), m.prev_toNat inside, Nat.add_sub_assoc pos]
    _ = (address.toNat + m.size) % m.size := by
        rw [Nat.mod_add_mod, Nat.add_right_comm, m.add_one_add_pred]
    _ = address.toNat := by rw [Nat.add_mod_right, Nat.mod_eq_of_lt inside]

end Memory

namespace Machine

/-- An offset wraps to its remainder, in words of 64 bits as well as without a bound; the program
counter goes on by the length of the instruction in IR, modulo the size of memory, though the sum
is one of bytes; and the neighbours of a cell are one cell on and one cell back around memory, each
the way back from the other. -/
theorem address_arithmetic (m : Memory) :
    (∀ offset : Nat, (m.wrap offset).toNat = offset % m.size) ∧
    (∀ offset : UInt64,
      m.wrap offset.toNat = (offset &&& (UInt64.ofNat m.size - 1)).toUInt8) ∧
    (∀ regs : Registers, (pcAfter regs m).toNat =
      (regs.pc.toNat + (operandCount regs.ir + 1)) % m.size) ∧
    ∀ address : UInt8, address.toNat < m.size →
      (m.next address).toNat = (address.toNat + 1) % m.size ∧
      (m.prev address).toNat = (address.toNat + m.size - 1) % m.size ∧
      m.prev (m.next address) = address ∧ m.next (m.prev address) = address := by
  refine ⟨m.wrap_toNat, m.wrap_word, fun regs => ?_, fun address inside => ?_⟩
  · exact m.wrap_add_toNat regs.pc (operandCount regs.ir + 1)
  · exact ⟨m.next_toNat inside, m.prev_toNat inside, Memory.prev_next inside,
      Memory.next_prev inside⟩

theorem address_arithmetic_lastCell :
    let cells : Memory := ⟨#[5, 6, 7, 8], by decide⟩
    (3 : UInt8).toNat < cells.size ∧ (cells.next 3).toNat = (3 + 1) % 4 ∧
      cells.prev (cells.next 3) = 3 := by
  intro cells
  have inside : (3 : UInt8).toNat < cells.size := by decide
  have neighbours := (address_arithmetic cells).2.2.2 3 inside
  exact ⟨inside, neighbours.1, neighbours.2.2.1⟩

end Machine

end ByteMachine
