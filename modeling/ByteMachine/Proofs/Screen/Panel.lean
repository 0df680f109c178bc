import ByteMachine.Screen.View

/-! Where the cells of a box are. Every row of a box is as long as the box is wide, since what is
inside is cut at the inner edge or filled up to it, so the boxes of a column stand exactly below
each other and the columns of the screen exactly beside each other. -/
namespace ByteMachine.Screen
variable {width height index column : Nat}

theorem Row.getElem?_fit_of_lt {row : Row} (inside : column < width)
    (filled : column < row.cells.length) : (row.fit width)[column]? = row.cells[column]? := by
  have taken : column < (row.cells.take width).length := by
    rw [List.length_take]
    omega
  rw [fit, List.rightpad, List.getElem?_append_left taken, List.getElem?_take_of_lt inside]

theorem Row.getElem?_fit_of_le {row : Row} (inside : column < width)
    (empty : row.cells.length ≤ column) : (row.fit width)[column]? = some (blank row.rest) := by
  have all : row.cells.take width = row.cells := List.take_of_length_le (by omega)
  have left : column - row.cells.length < width - row.cells.length := by omega
  rw [fit, List.rightpad, all, List.getElem?_append_right empty, List.getElem?_replicate_of_lt left]

def cellAt (screen : List (List Cell)) (row column : Nat) : Option Cell :=
  screen[row]?.bind (·[column]?)

namespace Panel
variable {p : Panel} {rows : List Row}

theorem length_top (p : Panel) (sides : 2 ≤ width) : (p.top width).length = width := by
  simp only [top, length_span, List.length_cons, List.length_append, List.length_rightpad,
    List.length_take, List.length_nil, inner]
  omega

theorem length_bottom (p : Panel) (sides : 2 ≤ width) : (p.bottom width).length = width := by
  simp only [bottom, length_span, List.length_cons, List.length_append, List.length_replicate,
    List.length_nil, inner]
  omega

theorem length_line (p : Panel) (sides : 2 ≤ width) (rows : List Row) (index : Nat) :
    (p.line width rows index).length = width := by
  simp only [line, List.length_cons, List.length_append, Row.length_fit, List.length_nil, inner]
  omega

theorem length_draw : (p.draw width height rows).length = inner height + 2 := by
  simp [draw]

theorem length_of_mem_draw (sides : 2 ≤ width) :
    ∀ cells ∈ p.draw width height rows, cells.length = width := by
  intro cells mem
  rw [draw, List.mem_cons, List.mem_append, List.mem_map, List.mem_singleton] at mem
  rcases mem with rfl | ⟨index, -, rfl⟩ | rfl
  · exact p.length_top sides
  · exact p.length_line sides rows index
  · exact p.length_bottom sides

theorem getElem?_draw (inside : index < inner height) :
    (p.draw width height rows)[index + 1]? = some (p.line width rows index) := by
  have within : index < ((List.range (inner height)).map (p.line width rows)).length := by
    simpa using inside
  rw [draw, List.getElem?_cons_succ, List.getElem?_append_left within, List.getElem?_map,
    List.getElem?_range inside]
  rfl

theorem getElem?_line (inside : column < inner width) :
    (p.line width rows index)[column + 1]? =
      ((rows[index]?.getD ⟨[], p.inside⟩).fit (inner width))[column]? := by
  rw [line, List.getElem?_cons_succ, List.getElem?_append_left (by rwa [Row.length_fit])]

theorem getElem?_line_left : (p.line width rows index)[0]? = some p.side := rfl

theorem getElem?_line_right : (p.line width rows index)[inner width + 1]? = some p.side := by
  rw [line, List.getElem?_cons_succ, List.getElem?_append_right (Nat.le_of_eq (Row.length_fit ..)),
    Row.length_fit, Nat.sub_self]
  rfl

end Panel

end ByteMachine.Screen

namespace ByteMachine.Debugger
open Screen
variable {split : Split} {index : Nat}

theorem length_of_mem_drawLeft {d : Debugger} :
    ∀ cells ∈ d.drawLeft split, cells.length = split.left := by
  intro cells mem
  simp only [drawLeft, List.mem_append] at mem
  rcases mem with (listing | registers) | status
  · exact Panel.length_of_mem_draw split.wide.1 cells listing
  · exact Panel.length_of_mem_draw split.wide.1 cells registers
  · exact Panel.length_of_mem_draw split.wide.1 cells status

theorem memory_le_length_drawLeft (d : Debugger) (split : Split) :
    split.memory ≤ (d.drawLeft split).length := by
  obtain ⟨listing, registers, status, -⟩ : 2 ≤ split.listing ∧ 2 ≤ split.registers ∧
      2 ≤ split.status ∧ _ := by simpa using split.high
  have even := split.even
  simp only [drawLeft, List.length_append, Panel.length_draw, Panel.inner]
  omega

theorem length_memoryBox (d : Debugger) (width height : Nat) :
    (d.memoryBox width height).length = Panel.inner height + 2 := Panel.length_draw

theorem getElem?_memoryBox (d : Debugger) {width height : Nat}
    (inside : index < Panel.inner height) : (d.memoryBox width height)[index + 1]? =
      some (memoryPanel.line width (d.memoryRows height) index) := Panel.getElem?_draw inside

theorem cellAt_draw (d : Debugger) (split : Split) {row : Nat} (inside : row < split.memory)
    (column : Nat) : cellAt (d.draw split) row (split.left + column) =
      cellAt (d.memoryBox split.right split.memory) row column := by
  have exists_left : row < (d.drawLeft split).length :=
    Nat.lt_of_lt_of_le inside (d.memory_le_length_drawLeft split)
  have exists_box : row < (d.memoryBox split.right split.memory).length := by
    rw [length_memoryBox, Panel.inner]
    omega
  have length := length_of_mem_drawLeft _ (List.getElem_mem exists_left)
  have right : (d.drawRight split)[row]? = some (d.memoryBox split.right split.memory)[row] := by
    rw [drawRight, List.append_assoc, List.getElem?_append_left exists_box,
      List.getElem?_eq_getElem exists_box]
  have whole : (d.draw split)[row]? = some ((d.drawLeft split)[row] ++
      (d.memoryBox split.right split.memory)[row]) := by
    simp only [draw, List.getElem?_zipWith, right, List.getElem?_eq_getElem exists_left]
  rw [cellAt, cellAt, whole, List.getElem?_eq_getElem exists_box, Option.bind_some,
    Option.bind_some, List.getElem?_append_right (by omega), length, Nat.add_sub_cancel_left]

end ByteMachine.Debugger
