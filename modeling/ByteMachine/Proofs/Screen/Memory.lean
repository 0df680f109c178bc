import ByteMachine.Proofs.Memory
import ByteMachine.Proofs.Screen.Panel

/-! The box that shows memory, column by column. A row of it begins with the address of its first
cell, and three columns belong to each cell from there on, up to eight cells or the end of memory;
rows past the end of memory are blank, and nothing reaches over the inner edge of the box. -/
namespace ByteMachine.Screen

section
variable {α β : Type}

theorem getElem?_flatMap_of_length {l : List α} {f : α → List β} {n : Nat}
    (length : ∀ x, (f x).length = n) (k : Nat) {j : Nat} (inside : j < n) :
    (l.flatMap f)[n * k + j]? = l[k]?.bind fun x => (f x)[j]? := by
  induction l generalizing k with
  | nil => rfl
  | cons x l ih =>
    rw [List.flatMap_cons]
    cases k with
    | zero =>
      rw [Nat.mul_zero, Nat.zero_add, List.getElem?_append_left (by rwa [length])]
      rfl
    | succ k =>
      have behind : n * (k + 1) + j - n = n * k + j := by
        rw [Nat.mul_succ]
        omega
      rw [List.getElem?_append_right (by rw [length, Nat.mul_succ]; omega), length, behind, ih,
        List.getElem?_cons_succ]

theorem getElem?_filterMap_range {f : Nat → Option β}
    (closed : ∀ n, f n = none → f (n + 1) = none) (count n : Nat) :
    ((List.range count).filterMap f)[n]? = if n < count then f n else none := by
  induction count generalizing f n with
  | zero => rfl
  | succ count ih =>
    rw [List.range_succ_eq_map, List.filterMap_cons, List.filterMap_map]
    cases first : f 0 with
    | none =>
      have never : ∀ n, f n = none := fun n => by
        induction n with
        | zero => exact first
        | succ n ih => exact closed n ih
      have empty : (List.range count).filterMap (f ∘ Nat.succ) = [] :=
        List.filterMap_eq_nil_iff.2 fun n _ => never (n + 1)
      simp only [empty, never n, List.getElem?_nil, ite_self]
    | some x =>
      cases n with
      | zero => simp only [first, List.getElem?_cons_zero, Nat.zero_lt_succ, if_true]
      | succ n =>
        have later := ih (f := f ∘ Nat.succ) (fun n none => closed (n + 1) none) n
        rw [List.getElem?_cons_succ, later]
        simp only [Function.comp, Nat.add_lt_add_iff_right]

end

def hexDigit (d : Nat) : Char := "0123456789ABCDEF".toList.getD d ' '

def hexPair (n : Nat) : List Char := [hexDigit (n / 16), hexDigit (n % 16)]

theorem hex_eq_hexPair {n : Nat} (byte : n < 256) : Text.hex n = hexPair n := by
  have digit : ∀ d < 16, (Nat.digitChar d).toUpper = hexDigit d := by decide
  have low : n % 16 < 16 := Nat.mod_lt _ (by decide)
  have high : n / 16 < 16 := by omega
  rw [Text.hex, Text.hexLower, Text.padded, hexPair]
  by_cases small : n < 16
  · have zero : n / 16 = 0 := Nat.div_eq_of_lt small
    have same : n % 16 = n := Nat.mod_eq_of_lt small
    rw [Nat.toDigits_of_lt_base small, zero, same, ← digit n small]
    rfl
  · rw [Nat.toDigits_of_base_le (by decide) (by omega), Nat.toDigits_of_lt_base high,
      ← digit _ high, ← digit _ low]
    rfl

end ByteMachine.Screen

namespace ByteMachine.Debugger
open Screen
variable {m : Machine} {start column : Nat}

def cellColumns (m : Machine) (address : Nat) (value : UInt8) : List Cell :=
  span (cellStyle m.regs address value) (hexPair value.toNat ++ [' '])

def addressColumns (start : Nat) : List Cell :=
  span (.colored .darkGray) (hexPair start ++ [':', ' '])

theorem cells_memoryRow (byte : start < 256) : (memoryRow m start).cells =
    addressColumns start ++
      (m.mem.dump start rowSize).flatMap fun cell => cellColumns m cell.1 cell.2 := by
  have digits : ∀ value : UInt8, Text.hex value.toNat = hexPair value.toNat :=
    fun value => hex_eq_hexPair value.toNat_lt
  simp only [memoryRow, hex_eq_hexPair byte, digits, addressColumns, cellColumns]

theorem length_cells_memoryRow (byte : start < 256) :
    (memoryRow m start).cells.length = 4 + 3 * min rowSize (m.mem.size - start) := by
  have three : ∀ cell : Nat × UInt8, (cellColumns m cell.1 cell.2).length = 3 := fun _ => rfl
  have count : (m.mem.dump start rowSize).length = min rowSize (m.mem.size - start) := by
    rw [Memory.dump_eq, List.length_map, List.length_range']
  rw [cells_memoryRow byte, List.length_append, List.length_flatMap]
  simp only [three, List.map_const', List.sum_replicate_nat, count, Nat.mul_comm]
  rfl

theorem cells_memoryRow_address (byte : start < 256) (front : column < 4) :
    (memoryRow m start).cells[column]? = (addressColumns start)[column]? := by
  rw [cells_memoryRow byte, List.getElem?_append_left front]

theorem cells_memoryRow_cell (byte : start < 256) {k j : Nat} (few : k < rowSize)
    (inside : start + k < m.mem.size) (digit : j < 3) :
    (memoryRow m start).cells[4 + (3 * k + j)]? =
      (cellColumns m (start + k) (m.mem.cell (start + k)))[j]? := by
  have dumped : (m.mem.dump start rowSize)[k]? = some (start + k, m.mem.cell (start + k)) := by
    have listed : k < min rowSize (m.mem.size - start) := by omega
    simp [Memory.dump_eq, listed]
  have front : (addressColumns start).length = 4 := rfl
  rw [cells_memoryRow byte, List.getElem?_append_right (by omega), front, Nat.add_sub_cancel_left,
    getElem?_flatMap_of_length (n := 3) (fun _ => rfl) k digit, dumped, Option.bind_some]

def memoryRow? (d : Debugger) (row : Nat) : Option Screen.Row :=
  let start := (d.scroll + row) * rowSize
  if start < d.machine.mem.size then some (memoryRow d.machine start) else none

theorem memoryRow?_of_lt {d : Debugger} {row : Nat}
    (present : 8 * (d.scroll + row) < d.machine.mem.size) :
    d.memoryRow? row = some (memoryRow d.machine (8 * (d.scroll + row))) := by
  rw [Nat.mul_comm] at present ⊢
  exact if_pos present

theorem memoryRow?_of_le {d : Debugger} {row : Nat}
    (past : d.machine.mem.size ≤ 8 * (d.scroll + row)) : d.memoryRow? row = none := by
  rw [Nat.mul_comm] at past
  exact if_neg (Nat.not_lt.2 past)

theorem memoryRow?_closed (d : Debugger) (row : Nat) (none : d.memoryRow? row = none) :
    d.memoryRow? (row + 1) = .none := by
  by_cases present : 8 * (d.scroll + row) < d.machine.mem.size
  · rw [memoryRow?_of_lt present] at none
    cases none
  · exact memoryRow?_of_le (by omega)

theorem getElem?_memoryRows (d : Debugger) {height row : Nat} (inside : row < Panel.inner height) :
    (d.memoryRows height)[row]? = d.memoryRow? row := by
  have rows : d.memoryRows height = (List.range (Panel.inner height)).filterMap d.memoryRow? := rfl
  rw [rows, getElem?_filterMap_range d.memoryRow?_closed, if_pos inside]

/-- What the columns of a row show from an address on, up to the edge of the box: nothing past the
end of memory, and else the address, the cells that there are, and nothing behind them. -/
structure ShowsMemory (m : Machine) (start edge : Nat) (shown : Nat → Option Cell) : Prop where
  outside : m.mem.size ≤ start → ∀ column < edge, shown column = some (blank .plain)
  address : start < m.mem.size → ∀ column < 4, column < edge →
    shown column = (span (.colored .darkGray) (hexPair start ++ [':', ' ']))[column]?
  cells : ∀ k < 8, start + k < m.mem.size → ∀ j < 3, 4 + (3 * k + j) < edge →
    shown (4 + (3 * k + j)) = (span
      (if start + k = m.regs.pc.toNat then .strong .yellow
      else if start + k = m.regs.sp.toNat then .strong .magenta
      else if m.mem.cell (start + k) ≠ 0 then .colored .white
      else .colored .darkGray)
      (hexPair (m.mem.cell (start + k)).toNat ++ [' ']))[j]?
  behind : start < m.mem.size → ∀ column < edge, 4 + 3 * min 8 (m.mem.size - start) ≤ column →
    shown column = some (blank .plain)

theorem showsMemory_of_fit {d : Debugger} {row edge : Nat} {shown : Nat → Option Cell}
    (fit : ∀ column < edge, shown column =
      (((d.memoryRow? row).getD ⟨[], memoryPanel.inside⟩).fit edge)[column]?) :
    ShowsMemory d.machine (8 * (d.scroll + row)) edge shown where
  outside past column inside := by
    rw [fit column inside, memoryRow?_of_le past]
    exact Row.getElem?_fit_of_le inside (Nat.zero_le _)
  address present column front inside := by
    have byte := Nat.lt_of_lt_of_le present d.machine.mem.size_le
    have filled : column < (memoryRow d.machine (8 * (d.scroll + row))).cells.length := by
      rw [length_cells_memoryRow byte]
      omega
    rw [fit column inside, memoryRow?_of_lt present, Option.getD_some,
      Row.getElem?_fit_of_lt inside filled, cells_memoryRow_address byte front, addressColumns]
  cells k few present j digit inside := by
    have first : 8 * (d.scroll + row) < d.machine.mem.size := by omega
    have byte := Nat.lt_of_lt_of_le first d.machine.mem.size_le
    have filled :
        4 + (3 * k + j) < (memoryRow d.machine (8 * (d.scroll + row))).cells.length := by
      rw [length_cells_memoryRow byte, rowSize]
      omega
    rw [fit _ inside, memoryRow?_of_lt first, Option.getD_some,
      Row.getElem?_fit_of_lt inside filled, cells_memoryRow_cell byte few present digit,
      cellColumns, cellStyle]
    simp only [bne_iff_ne]
  behind present column inside last := by
    have byte := Nat.lt_of_lt_of_le present d.machine.mem.size_le
    have empty : (memoryRow d.machine (8 * (d.scroll + row))).cells.length ≤ column := by
      rwa [length_cells_memoryRow byte]
    rw [fit column inside, memoryRow?_of_lt present, Option.getD_some]
    exact Row.getElem?_fit_of_le inside empty

/-- The inner rows of the box that shows memory, however wide and high it is: each lies between
the sides of the box and shows eight cells, the first of them as many rows of eight from the start
of memory as the rows above it and those that have been scrolled over. The box is at the top of
the screen and right behind the left column, however the screen is divided up. -/
theorem memory_panel (d : Debugger) {width height row : Nat}
    (inside : row < Panel.inner height) :
    let shown := fun column => cellAt (d.memoryBox width height) (row + 1) (column + 1)
    let side : Cell := ⟨'│', .colored .magenta⟩
    ShowsMemory d.machine (8 * (d.scroll + row)) (Panel.inner width) shown ∧
      (2 ≤ width → shown (Panel.inner width) = some side ∧
        cellAt (d.memoryBox width height) (row + 1) 0 = some side) ∧
      ∀ split : Split, split.right = width → split.memory = height → ∀ column,
        cellAt (d.draw split) (row + 1) (split.left + column) =
          cellAt (d.memoryBox width height) (row + 1) column := by
  intro shown side
  have line : ∀ column, cellAt (d.memoryBox width height) (row + 1) column =
      (memoryPanel.line width (d.memoryRows height) row)[column]? := fun column => by
    rw [cellAt, d.getElem?_memoryBox inside, Option.bind_some]
  refine ⟨showsMemory_of_fit fun column within => ?_, fun _ => ⟨?_, ?_⟩, ?_⟩
  · simp only [shown]
    rw [line, Panel.getElem?_line within, d.getElem?_memoryRows inside]
  · simp only [shown]
    rw [line, Panel.getElem?_line_right]
    rfl
  · rw [line, Panel.getElem?_line_left]
    rfl
  · rintro split rfl rfl column
    exact d.cellAt_draw split (by rw [Panel.inner] at inside; omega) column

def fourCells : Debugger :=
  let cells : Memory := ⟨#[0, 0x4D, 0xA7, 9], by decide⟩
  let machine : Machine := ⟨⟨#v[0, 0, 0, 0, 0, 0, 0, 2], 1, 0, 0⟩, cells, .running, 0, none⟩
  ⟨machine, [], .standard, #[], [], false, .ready, 0, false⟩

/-- The box ends right behind the digits of the third cell. -/
theorem memory_panel_fourCells :
    0 < Panel.inner 3 ∧
      cellAt (fourCells.memoryBox 14 3) 1 8 = some ⟨'4', .strong .yellow⟩ ∧
      cellAt (fourCells.memoryBox 14 3) 1 12 = some ⟨'7', .strong .magenta⟩ ∧
      cellAt (fourCells.memoryBox 14 3) 1 13 = some ⟨'│', .colored .magenta⟩ ∧
      ∀ split, Split.ofSize? 20 20 = some split → ∀ column,
        cellAt (fourCells.draw split) 1 (11 + column) =
          cellAt (fourCells.memoryBox 9 11) 1 column := by
  have low : 0 < Panel.inner 3 := by decide
  have high : 0 < Panel.inner 11 := by decide
  obtain ⟨shows, sides, -⟩ := @memory_panel fourCells 14 3 0 low
  obtain ⟨-, -, placed⟩ := @memory_panel fourCells 9 11 0 high
  refine ⟨low, ?_, ?_, (sides (by decide)).1, ?_⟩
  · exact shows.cells 1 (by decide) (by decide) 0 (by decide) (by decide)
  · exact shows.cells 2 (by decide) (by decide) 1 (by decide) (by decide)
  · rintro split divided column
    cases divided
    exact placed _ rfl rfl column

end ByteMachine.Debugger
