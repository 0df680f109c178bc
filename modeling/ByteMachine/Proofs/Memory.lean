import ByteMachine.Memory
import Mathlib.Data.List.GetD

/-! Cells under a program that is put into memory, and cells as they are listed. A program is
taken exactly if it ends at the end of memory or before it; a listing of cells stops at the end
of memory wherever it begins, so what was put into memory is listed again as it was. -/
namespace ByteMachine.Memory
variable {m after : Memory} {start count : Nat} {program : List UInt8}

theorem cell_eq_getD (m : Memory) (address : Nat) : m.cell address = m.toList.getD address 0 := by
  simp [cell, toList]

theorem cell_of_le {address : Nat} (outside : m.size ≤ address) : m.cell address = 0 := by
  rw [cell_eq_getD, List.getD_eq_default _ _ (m.length_toList ▸ outside)]

theorem drop_toList {address : Nat} (inside : address < m.size) :
    m.toList.drop address = m.cell address :: m.toList.drop (address + 1) := by
  have lt : address < m.toList.length := m.length_toList ▸ inside
  rw [List.drop_eq_getElem_cons lt, cell_eq_getD, List.getD_eq_getElem _ _ lt]

theorem getD_drop (m : Memory) (address k : Nat) :
    (m.toList.drop address).getD k 0 = m.cell (address + k) := by
  rw [cell_eq_getD, List.getD_eq_getElem?_getD, List.getElem?_drop, ← List.getD_eq_getElem?_getD]

/-! ### Programs put into memory -/

theorem length_take_of_load (loaded : m.load start program = (.ok (), after)) :
    (m.toList.take start).length = start := by
  have fits := (load_isOk_iff m start program).1 ⟨after, loaded⟩
  rw [List.length_take, length_toList]
  omega

theorem cell_load (loaded : m.load start program = (.ok (), after)) (k : Nat) :
    after.cell k = if start ≤ k ∧ k < start + program.length then program.getD (k - start) 0
      else m.cell k := by
  have front := length_take_of_load loaded
  rw [cell_eq_getD, cell_eq_getD, toList_load loaded, List.append_assoc]
  by_cases before : k < start
  · have kept : k < (m.toList.take start).length := front.symm ▸ before
    rw [if_neg (by omega), List.getD_append _ _ _ _ kept, List.getD_eq_getElem?_getD,
      List.getElem?_take_of_lt before, ← List.getD_eq_getElem?_getD]
  · rw [List.getD_append_right _ _ _ _ (by omega), front]
    by_cases within : k < start + program.length
    · rw [if_pos (by omega), List.getD_append _ _ _ _ (by omega)]
    · have place : start + program.length + (k - start - program.length) = k := by omega
      rw [if_neg (by omega), List.getD_append_right _ _ _ _ (by omega),
        List.getD_eq_getElem?_getD, List.getElem?_drop, place, ← List.getD_eq_getElem?_getD]

theorem size_load (loaded : m.load start program = (.ok (), after)) : after.size = m.size := by
  have fits := (load_isOk_iff m start program).1 ⟨after, loaded⟩
  have length := congrArg List.length (toList_load loaded)
  simp only [List.length_append, List.length_take, List.length_drop, length_toList] at length
  omega

/-! ### Cells as they are listed -/

theorem dump_eq (m : Memory) (start count : Nat) :
    m.dump start count =
      (List.range' start (min count (m.size - start))).map fun address =>
        (address, m.cell address) := by
  refine List.ext_getElem ?_ fun index listed _ => ?_
  · simp [dump, length_toList]
  · have inside : start + index < m.toList.length := by
      simp [dump] at listed
      omega
    simp [dump, cell_eq_getD, inside]

theorem mem_dump_iff {address : Nat} {value : UInt8} :
    (address, value) ∈ m.dump start count ↔
      start ≤ address ∧ address < min (start + count) m.size ∧ value = m.cell address := by
  rw [dump_eq, List.mem_map]
  constructor
  · intro listed
    obtain ⟨found, range, same⟩ := listed
    obtain ⟨rfl, rfl⟩ := Prod.mk.inj same
    have bounds := List.mem_range'_1.1 range
    exact ⟨bounds.1, by omega, rfl⟩
  · intro cell
    obtain ⟨first, last, rfl⟩ := cell
    exact ⟨address, List.mem_range'_1.2 ⟨first, by omega⟩, rfl⟩

theorem dump_ascending (m : Memory) (start count : Nat) :
    (m.dump start count).Pairwise (·.1 < ·.1) := by
  rw [dump_eq, List.pairwise_map]
  exact List.pairwise_lt_range'

theorem dump_load (loaded : m.load start program = (.ok (), after)) :
    after.dump start program.length = (List.range' start program.length).zip program := by
  have fits := (load_isOk_iff m start program).1 ⟨after, loaded⟩
  have all : min program.length (after.size - start) = program.length := by
    rw [size_load loaded]
    omega
  rw [dump_eq, all]
  refine List.ext_getElem (by simp) fun index listed _ => ?_
  have within : index < program.length := by simpa using listed
  simp [cell_load loaded, within]

/-- A program is taken exactly if it fits between `start` and the end of memory. Then its bytes
are in the cells from `start` on, and whether it is taken or not every other cell is as before.
What is listed of a memory are its cells in the range that was asked for, once each and in
ascending order, so a program that was taken is listed as it was. -/
theorem load_and_dump (m : Memory) (start : Nat) (program : List UInt8) :
    let (result, after) := m.load start program
    result = (if start + program.length ≤ m.size then .ok ()
      else .error (.programTooLarge program.length (m.size - start))) ∧
    after.size = m.size ∧
    (∀ k, after.cell k =
      if start + program.length ≤ m.size ∧ start ≤ k ∧ k < start + program.length then
        program.getD (k - start) 0
      else m.cell k) ∧
    (∀ first count,
      (∀ address value, (address, value) ∈ m.dump first count ↔
        first ≤ address ∧ address < min (first + count) m.size ∧ value = m.cell address) ∧
      (m.dump first count).Pairwise (·.1 < ·.1)) ∧
    (start + program.length ≤ m.size →
      after.dump start program.length = (List.range' start program.length).zip program) := by
  have listed : ∀ first count,
      (∀ address value, (address, value) ∈ m.dump first count ↔
        first ≤ address ∧ address < min (first + count) m.size ∧ value = m.cell address) ∧
      (m.dump first count).Pairwise (·.1 < ·.1) :=
    fun first count => ⟨fun _ _ => mem_dump_iff, m.dump_ascending first count⟩
  by_cases fits : start + program.length ≤ m.size
  · obtain ⟨taken, ended⟩ := (load_isOk_iff m start program).2 fits
    rw [ended]
    refine ⟨(if_pos fits).symm, size_load ended, fun k => ?_, listed, fun _ => dump_load ended⟩
    simp only [fits, true_and]
    exact cell_load ended k
  · have refused := load_of_unfit (m := m) (Nat.lt_of_not_le fits)
    rw [refused]
    refine ⟨(if_neg fits).symm, rfl, fun k => ?_, listed, fun le => absurd le fits⟩
    rw [if_neg fun both => fits both.1]

theorem load_and_dump_atEnd :
    let cells : Memory := ⟨#[5, 6, 7, 8], by decide⟩
    2 + [1, 0].length ≤ cells.size ∧
      (cells.load 2 [1, 0]).2.dump 2 2 = [(2, 1), (3, 0)] := by
  intro cells
  have fits : 2 + [1, 0].length ≤ cells.size := by decide
  obtain ⟨-, -, -, -, again⟩ := load_and_dump cells 2 [1, 0]
  exact ⟨fits, again fits⟩

end ByteMachine.Memory
