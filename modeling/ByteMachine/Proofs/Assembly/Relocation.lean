import ByteMachine.Proofs.Assembly.Mistakes

/-! One text behind another. If they define no label in common, each refers to its own labels
only, so what the first comes to stays, and of the second the addresses move by as many bytes,
unless one of them is no byte any more. -/
namespace ByteMachine

namespace Except
variable {ε α β γ : Type}

theorem mapM_zip {f : α → Except ε γ} {g : α × β → Except ε γ} {xs : List α} {ys : List β}
    (paired : List.Forall₂ (fun x y => f x = g (x, y)) xs ys) :
    xs.mapM f = (xs.zip ys).mapM g := by
  induction paired with
  | nil => rfl
  | cons same _ ih => rw [List.zip_cons_cons, List.mapM_cons, List.mapM_cons, same, ih]

theorem mapM_append {f : α → Except ε β} {xs : List α} {done : List β}
    (read : xs.mapM f = .ok done) (ys : List α) :
    (xs ++ ys).mapM f = (ys.mapM f).map (done ++ ·) := by
  rw [List.mapM_append, read]
  cases ys.mapM f <;> rfl

end Except

namespace Assembly
open Text
variable {texts more : List (List Char)} {program rest : List SourceLine}
  {chunks others : List (List Piece)} {label : List Char} {number n : Nat}

/-! ### Labels -/

theorem defined_cons (t : List Char) (texts : List (List Char)) (label : List Char) :
    Defined (t :: texts) label ↔
      (∃ body, Spells t ⟨some label, body⟩) ∨ Defined texts label := by
  simp only [Defined, List.exists_mem_cons_iff]

theorem mem_labelsOf_iff (spelled : List.Forall₂ Spells texts program) :
    label ∈ labelsOf program ↔ Defined texts label := by
  induction spelled with
  | nil => simp [labelsOf, Defined]
  | cons spells _ ih =>
    rw [defined_cons, spells.defines_iff, ← ih, labelsOf, List.mem_filterMap,
      List.exists_mem_cons_iff, labelsOf, List.mem_filterMap]

theorem defined_ended {wholes blanks : List (List Char)} (ended : List.Forall₂ Ended wholes texts)
    (empty : ∀ line ∈ blanks, line = []) :
    Defined (texts ++ blanks) label ↔ Defined wholes label := by
  induction ended with
  | nil =>
    refine iff_of_false ?_ (by simp [Defined])
    rintro ⟨t, mem, body, spells⟩
    cases empty t mem
    cases (spells_iff.1 spells).1
  | cons first _ ih =>
    rw [List.cons_append, defined_cons, defined_cons, ih]
    simp only [spells_iff, ofText_ended first]

/-! ### Pieces -/

theorem numbered_append (number : Nat) (chunks others : List (List Piece)) :
    numbered number (chunks ++ others) =
      numbered number chunks ++ numbered (number + chunks.length) others := by
  rw [numbered, List.zipIdx_append, List.flatMap_append]
  rfl

theorem numbered_add (lines number : Nat) (chunks : List (List Piece)) :
    numbered (lines + number) chunks =
      (numbered number chunks).map fun piece => (lines + piece.1, piece.2) := by
  induction chunks generalizing number with
  | nil => rfl
  | cons pieces chunks ih =>
    rw [numbered_cons, numbered_cons, List.map_append, List.map_map, Nat.add_assoc, ih]
    rfl

theorem length_numbered (number : Nat) (chunks : List (List Piece)) :
    (numbered number chunks).length = chunks.flatten.length := by
  induction chunks generalizing number with
  | nil => rfl
  | cons pieces chunks ih =>
    rw [numbered_cons, List.length_append, List.length_map, ih, List.flatten_cons,
      List.length_append]

/-! ### Readings -/

theorem Reading.line (reading : Reading texts program chunks) {i : Nat} {t : List Char}
    (found : texts[i]? = some t) :
    ∃ line pieces, program[i]? = some line ∧ Spells t line ∧ Emits line.body pieces := by
  obtain ⟨sizes, spelled⟩ := List.forall₂_iff_get.1 reading.spelled
  obtain ⟨counts, emitted⟩ := List.forall₂_iff_get.1 reading.emitted
  obtain ⟨inside, rfl⟩ := List.getElem?_eq_some_iff.1 found
  have known : i < program.length := sizes ▸ inside
  exact ⟨program[i], chunks[i], List.getElem?_eq_getElem known, spelled i inside known,
    emitted i known (counts ▸ known)⟩

theorem Reading.append (left : Reading texts program chunks) (right : Reading more rest others)
    (apart : ∀ label, Defined texts label → ¬ Defined more label) :
    Reading (texts ++ more) (program ++ rest) (chunks ++ others) where
  spelled := List.rel_append left.spelled right.spelled
  distinct := by
    rw [labelsOf, List.filterMap_append, List.nodup_append]
    refine ⟨left.distinct, right.distinct, ?_⟩
    rintro label first _ second rfl
    exact apart label ((mem_labelsOf_iff left.spelled).1 first)
      ((mem_labelsOf_iff right.spelled).1 second)
  emitted := List.rel_append left.emitted right.emitted

theorem Placed.append_left (placed : Placed program chunks label n)
    (sizes : program.length = chunks.length) (rest : List SourceLine)
    (others : List (List Piece)) : Placed (program ++ rest) (chunks ++ others) label n := by
  obtain ⟨i, line, found, defines, rfl⟩ := placed
  have inside := (List.getElem?_eq_some_iff.1 found).1
  refine ⟨i, line, (List.getElem?_append_left inside).trans found, defines, ?_⟩
  rw [List.take_append_of_le_length (by omega)]

theorem Placed.append_right (placed : Placed rest others label n)
    (sizes : program.length = chunks.length) :
    Placed (program ++ rest) (chunks ++ others) label (chunks.flatten.length + n) := by
  obtain ⟨i, line, found, defines, rfl⟩ := placed
  refine ⟨program.length + i, line, ?_, defines, ?_⟩
  · rw [List.getElem?_append_right (Nat.le_add_right _ i), Nat.add_sub_cancel_left, found]
  · rw [sizes, List.take_length_add_append, List.flatten_append, List.length_append]

theorem reading_of_ok {source : String} {bytes : List UInt8}
    (assembled : assemble source = .ok bytes) :
    ∃ program chunks, Reading (lines source.toList) program chunks ∧
      List.Forall₂ (fun piece b => piece.2.Stands (Placed program chunks) b) (numbered 1 chunks)
        bytes := by
  obtain ⟨i, cause, broken, first⟩ | ⟨-, program, chunks, reading⟩ :=
    broken_or_reading (lines source.toList)
  · have failed : assemble source = .error ⟨i + 1, cause⟩ :=
      assemble_of_layout (layout_blank_eq_error_iff.2 ⟨i, broken, first, rfl⟩)
    cases assembled.symm.trans failed
  · exact ⟨program, chunks, reading, ((assemble_exact reading).ok bytes).1 assembled⟩

/-! ### Line feeds -/

theorem lines_feed (source : String) : ∃ ls blanks,
    List.Forall₂ Ended (lines source.toList) ls ∧ (∀ line ∈ blanks, line = []) ∧
      lines (source ++ "\n").toList = ls ++ blanks ∧
      ∀ more : String, lines (source ++ "\n" ++ more).toList =
        lines (source ++ "\n").toList ++ lines more.toList := by
  obtain ⟨ls, blanks, ended, empty, split⟩ := lines_append_feed source.toList
  have whole : lines (source ++ "\n").toList = ls ++ blanks := by
    have none := split []
    rw [lines_nil, List.append_nil] at none
    rw [String.toList_append]
    exact none
  refine ⟨ls, blanks, ended, empty, whole, fun more => ?_⟩
  have joined : (source ++ "\n" ++ more).toList = source.toList ++ '\n' :: more.toList := by simp
  rw [joined, split, whole]

theorem layout_feed (source : String) :
    layout 1 0 [] (lines (source ++ "\n").toList) = layout 1 0 [] (lines source.toList) := by
  obtain ⟨ls, blanks, ended, empty, whole, -⟩ := lines_feed source
  have silent : ∀ text ∈ blanks, Line.ofText text = ⟨none, []⟩ := fun text mem => by
    rw [empty text mem]
    rfl
  rw [whole, layout_append_of_blank silent, layout_ended ended]

theorem assemble_feed (source : String) : assemble (source ++ "\n") = assemble source := by
  rw [assemble, assemble, assembleText_eq_layout, assembleText_eq_layout, layout_feed]

theorem defined_feed (source : String) (label : List Char) :
    Defined (lines (source ++ "\n").toList) label ↔ Defined (lines source.toList) label := by
  obtain ⟨ls, blanks, ended, empty, whole, -⟩ := lines_feed source
  rw [whole, defined_ended ended empty]

/-! ### Relocation -/

/-- The value of a piece behind `n` more bytes: a label is that much further on, and a byte that
is known stays. -/
def moved (n : Nat) : (Nat × Piece) × UInt8 → Nat
  | ((_, .byte _), b) => b.toNat
  | ((_, .address _), b) => n + b.toNat

def relocate (lines n : Nat) (piece : (Nat × Piece) × UInt8) : Except Error UInt8 :=
  if moved n piece ≤ 255 then .ok (UInt8.ofNat (moved n piece))
  else .error ⟨lines + piece.1.1, .outOfRange (moved n piece)⟩

theorem relocate_exact (lines n : Nat) (piece : (Nat × Piece) × UInt8) :
    Except.Exact (relocate lines n piece) (fun b => moved n piece = b.toNat)
      fun e => 255 < moved n piece ∧ e = ⟨lines + piece.1.1, .outOfRange (moved n piece)⟩ := by
  by_cases fits : moved n piece ≤ 255
  · rw [relocate, if_pos fits]
    refine ⟨fun b => ?_, fun e => ?_⟩
    · have small := b.toNat_lt
      rw [Except.ok.injEq, ← UInt8.toNat_inj, UInt8.toNat_ofNat', Nat.mod_eq_of_lt (by omega)]
    · exact iff_of_false nofun fun wrong => absurd fits (Nat.not_le.2 wrong.1)
  · rw [relocate, if_neg fits]
    refine ⟨fun b => ?_, fun e => ?_⟩
    · have small := b.toNat_lt
      exact iff_of_false nofun (by omega)
    · rw [Except.error.injEq, eq_comm, and_iff_right (Nat.not_le.1 fits)]

theorem resolve_moved {labels : Labels} {lines : Nat} {place : Addresses} {piece : Nat × Piece}
    {b : UInt8} (placed : ∀ label m, place label m → labels.lookup label = some (n + m))
    (stands : piece.2.Stands place b) :
    resolve labels (lines + piece.1, piece.2) = relocate lines n (piece, b) := by
  obtain ⟨number, known | label⟩ := piece
  · cases stands
    have fits : b.toNat ≤ 255 := Nat.le_of_lt_succ b.toNat_lt
    simp only [resolve, relocate, moved, if_pos fits, UInt8.ofNat_toNat]
  · rw [resolve]
    simp only [placed label _ stands]
    rfl

theorem assemble_append {head second : String} {one two : List UInt8}
    (left : assemble head = .ok one) (reading : Reading (lines second.toList) program chunks)
    (stands : List.Forall₂ (fun piece b => piece.2.Stands (Placed program chunks) b)
      (numbered 1 chunks) two)
    (split : lines (head ++ second).toList = lines head.toList ++ lines second.toList)
    (apart : ∀ label, Defined (lines head.toList) label → ¬ Defined (lines second.toList) label) :
    assemble (head ++ second) =
      (((numbered 1 chunks).zip two).mapM (relocate (lines head.toList).length one.length)).map
        (one ++ ·) := by
  obtain ⟨before, earlier, headReading, headStands⟩ := reading_of_ok left
  have sizes : before.length = earlier.length := headReading.emitted.length_eq
  have lineCount : (lines head.toList).length = earlier.length :=
    headReading.spelled.length_eq.trans sizes
  have byteCount : one.length = earlier.flatten.length :=
    headStands.length_eq.symm.trans (length_numbered 1 earlier)
  have joined := headReading.append reading apart
  rw [← split] at joined
  have known (label : List Char) (n : Nat) :
      (labelsAfter 0 [] (before ++ program) (earlier ++ chunks)).lookup label = some n ↔
        Placed (before ++ program) (earlier ++ chunks) label n :=
    lookup_labelsAfter joined.emitted.length_eq joined.distinct
  have first : (numbered 1 earlier).mapM
      (resolve (labelsAfter 0 [] (before ++ program) (earlier ++ chunks))) = .ok one := by
    refine mapM_resolve_iff.2 (headStands.imp fun piece b stands => ?_)
    obtain ⟨number, byte | label⟩ := piece
    · exact stands
    · exact (known _ _).2 (Placed.append_left stands sizes _ _)
  have moves (label : List Char) (m : Nat) (placed : Placed program chunks label m) :
      (labelsAfter 0 [] (before ++ program) (earlier ++ chunks)).lookup label =
        some (one.length + m) := by
    rw [known, byteCount]
    exact placed.append_right sizes
  rw [assemble_of_reading joined, numbered_append, Except.mapM_append first, Nat.add_comm 1,
    numbered_add, lineCount, List.mapM_map]
  exact congrArg (Except.map (one ++ ·))
    (Except.mapM_zip (stands.imp fun piece b here => resolve_moved moves here))

/-- Two texts with a line feed between them, each of which can be assembled, and which define no
label in common. The bytes of both are put out, those of the second with the length of the first
output added to each that stands for a label, if these are bytes still; if not, the first of them
is reported, its line counted on behind the lines of the first text. -/
theorem assemble_relocates {first second : String} {one two : List UInt8}
    (left : assemble first = .ok one) (right : assemble second = .ok two)
    (apart : ∀ label, Defined (lines first.toList) label → ¬ Defined (lines second.toList) label) :
    ∃ program chunks, Reading (lines second.toList) program chunks ∧
      List.Forall₂ (fun piece b => piece.2.Stands (Placed program chunks) b) (numbered 1 chunks)
        two ∧
      let joined := first ++ "\n" ++ second
      let pieces := (numbered 1 chunks).zip two
      ((∀ piece ∈ pieces, moved one.length piece ≤ 255) → assemble joined =
        .ok (one ++ pieces.map fun piece => UInt8.ofNat (moved one.length piece))) ∧
      ∀ e, assemble joined = .error e ↔ Except.First (fun piece e =>
        255 < moved one.length piece ∧ e =
          ⟨(lines (first ++ "\n").toList).length + piece.1.1,
            .outOfRange (moved one.length piece)⟩) pieces e := by
  obtain ⟨program, chunks, reading, stands⟩ := reading_of_ok right
  obtain ⟨-, -, -, -, -, split⟩ := lines_feed first
  have relocated := assemble_append ((assemble_feed first).trans left) reading stands (split second)
    fun label defined => apart label ((defined_feed first label).1 defined)
  have exact := Except.Exact.mapM
    (relocate_exact (lines (first ++ "\n").toList).length one.length)
    ((numbered 1 chunks).zip two)
  refine ⟨program, chunks, reading, stands, fun fits => ?_, fun e => ?_⟩
  · refine relocated.trans (Except.map_eq_ok_iff.2 ⟨_, (exact.ok _).2 ?_, rfl⟩)
    rw [List.forall₂_map_right_iff, List.forall₂_same]
    intro piece mem
    have small := fits piece mem
    rw [UInt8.toNat_ofNat', Nat.mod_eq_of_lt (by omega)]
  · rw [relocated, Except.map_eq_error_iff]
    exact exact.error e

/-- The carriage return becomes part of a line ending, and the second label moves by two bytes. -/
theorem assemble_relocates_carriageReturn :
    assemble "a: DB 7, a\r" = .ok [7, 0] ∧ assemble "b: DB 7, b" = .ok [7, 0] ∧
    (∀ label, Defined (lines "a: DB 7, a\r".toList) label →
      ¬ Defined (lines "b: DB 7, b".toList) label) ∧
    assemble ("a: DB 7, a\r" ++ "\n" ++ "b: DB 7, b") = .ok [7, 0, 7, 2] := by
  have left : assemble "a: DB 7, a\r" = .ok [7, 0] := rfl
  have right : assemble "b: DB 7, b" = .ok [7, 0] := rfl
  have upper : Spells "a: DB 7, a\r".toList ⟨some ['A'], "DB 7, a".toList⟩ :=
    spells_iff.2 ⟨.some rfl, rfl⟩
  have lower : Spells "b: DB 7, b".toList ⟨some ['B'], "DB 7, b".toList⟩ :=
    spells_iff.2 ⟨.some rfl, rfl⟩
  have apart : ∀ label, Defined (lines "a: DB 7, a\r".toList) label →
      ¬ Defined (lines "b: DB 7, b".toList) label := by
    rintro label ⟨t, mem, body, spells⟩ ⟨t', mem', body', spells'⟩
    have first : t = "a: DB 7, a\r".toList := List.mem_singleton.1 mem
    have second : t' = "b: DB 7, b".toList := List.mem_singleton.1 mem'
    cases upper.unique (first ▸ spells)
    cases lower.unique (second ▸ spells')
  obtain ⟨program, chunks, reading, -, done, -⟩ := assemble_relocates left right apart
  have laid : layout 1 0 [] (lines "b: DB 7, b".toList) =
      .ok ⟨[(1, .byte 7), (1, .address ['B'])], [(['B'], 0)]⟩ := rfl
  have pieces : numbered 1 chunks = [(1, .byte 7), (1, .address ['B'])] :=
    congrArg Layout.pieces (Except.ok.inj ((layout_of_reading reading).symm.trans laid))
  rw [pieces] at done
  exact ⟨left, right, apart, done (by decide)⟩

end Assembly

end ByteMachine
