import ByteMachine.Output

/-! Writers with little room. What is written in pieces is taken as far as it would be in
one, so a byte whose text does not fit leaves as much of the text as does. -/
namespace ByteMachine.Writer

theorem write_of_fits {w : Writer} {bytes : List UInt8} (fits : w.fitting bytes = bytes) :
    w.write bytes = (.ok (), { w with written := w.written ++ bytes }) := by
  rw [write, fits, if_pos rfl]

theorem write_of_short {w : Writer} {bytes : List UInt8}
    (short : (w.fitting bytes).length ≠ bytes.length) :
    w.write bytes = (.error w.refusal.message, { w with written := w.written ++ w.fitting bytes }) := by
  rw [write, if_neg short]

theorem size_written (w : Writer) (bytes : List UInt8) :
    (w.written ++ bytes).size = w.written.size + bytes.length := by
  rw [← Array.length_toList, Array.toList_appendList, List.length_append, Array.length_toList]

theorem fitting_append (w : Writer) (first second : List UInt8) :
    w.fitting (first ++ second) =
      w.fitting first ++ { w with written := w.written ++ first }.fitting second := by
  have size := w.size_written first
  obtain ⟨written, _ | room, refusal⟩ := w
  · rfl
  · simp only [fitting, List.take_append, size, Nat.sub_sub]

theorem length_fitting_le (w : Writer) (bytes : List UInt8) :
    (w.fitting bytes).length ≤ bytes.length := by
  obtain ⟨written, _ | room, refusal⟩ := w
  · exact Nat.le_refl _
  · exact List.length_take_le' _ _

theorem fitting_eq_self {w : Writer} {bytes : List UInt8}
    (fits : (w.fitting bytes).length = bytes.length) : w.fitting bytes = bytes := by
  obtain ⟨written, _ | room, refusal⟩ := w
  · rfl
  · exact (List.take_prefix _ _).eq_of_length fits

theorem fitting_of_short {w : Writer} {first : List UInt8}
    (short : (w.fitting first).length ≠ first.length) (second : List UInt8) :
    { w with written := w.written ++ first }.fitting second = [] := by
  have size := w.size_written first
  obtain ⟨written, _ | room, refusal⟩ := w
  · exact absurd rfl short
  · have full : room - (written ++ first).size = 0 := by
      simp only [fitting, List.length_take] at short size
      omega
    simp only [fitting, full, List.take_zero]

theorem write_append (w : Writer) (first second : List UInt8) :
    w.write (first ++ second) =
      match w.write first with
      | (.ok (), next) => next.write second
      | refused => refused := by
  have assoc (rest : List UInt8) : w.written ++ (first ++ rest) = w.written ++ first ++ rest :=
    Array.ext' (by simp)
  by_cases fits : (w.fitting first).length = first.length
  · rw [write_of_fits (fitting_eq_self fits)]
    simp only [write, fitting_append, fitting_eq_self fits, List.length_append, Nat.add_right_inj,
      assoc]
  · have same : w.fitting (first ++ second) = w.fitting first := by
      rw [fitting_append, fitting_of_short fits, List.append_nil]
    have short : (w.fitting (first ++ second)).length ≠ (first ++ second).length := by
      have le := w.length_fitting_le first
      rw [same, List.length_append]
      omega
    rw [write_of_short fits, write_of_short short, same]

theorem write_nil (w : Writer) : w.write [] = (.ok (), w) := by
  obtain ⟨written, _ | room, refusal⟩ := w <;> simp [write, fitting]

theorem writeAll_eq_write (w : Writer) (pieces : List (List UInt8)) :
    w.writeAll pieces = w.write pieces.flatten := by
  induction pieces generalizing w with
  | nil => exact w.write_nil.symm
  | cons piece rest ih =>
    rw [writeAll, List.flatten_cons, write_append]
    rcases w.write piece with ⟨_ | _, next⟩
    · rfl
    · exact ih next

end ByteMachine.Writer
