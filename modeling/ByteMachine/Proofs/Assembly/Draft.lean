import ByteMachine.Assembly.Draft
import ByteMachine.Proofs.Assembly.Layout

/-! The assembler comes to the layout of the source with every address resolved: what the
first pass writes are the pieces with zeros for the addresses, and each note of it is
overwritten once, at the place of its piece. -/
namespace ByteMachine.Assembly

def Piece.provisional : Piece → UInt8
  | .byte b => b
  | .address _ => 0

def references (index : Nat) : List (Nat × Piece) → List Reference
  | [] => []
  | (_, .byte _) :: rest => references (index + 1) rest
  | (line, .address label) :: rest => ⟨index, label, line⟩ :: references (index + 1) rest

theorem references_append (index : Nat) (first second : List (Nat × Piece)) :
    references index (first ++ second) =
      references index first ++ references (index + first.length) second := by
  induction first generalizing index with
  | nil => rfl
  | cons piece first ih =>
    have behind : index + 1 + first.length = index + (first.length + 1) := by omega
    rcases piece with ⟨line, b | label⟩ <;>
      simp only [List.cons_append, references, ih, List.length_cons, behind]

namespace Draft

def extend (d : Draft) (plan : Layout) : Draft where
  labels := plan.labels
  pending := d.pending ++ (references d.output.size plan.pieces).toArray
  output := d.output ++ (plan.pieces.map fun piece => piece.2.provisional).toArray

theorem foldl_emit (line : Nat) (d : Draft) (pieces : List Piece) :
    pieces.foldl (emit line) d = d.extend ⟨pieces.map (line, ·), d.labels⟩ := by
  induction pieces generalizing d with
  | nil => simp [extend, references]
  | cons piece pieces ih =>
    rw [List.foldl_cons, ih]
    cases piece <;> simp [emit, extend, references, Piece.provisional]

theorem extend_extend (d : Draft) (plan more : Layout) :
    (d.extend plan).extend more = d.extend ⟨plan.pieces ++ more.pieces, more.labels⟩ := by
  simp [extend, references_append, ← List.append_toArray]

/-- The first pass writes out the layout of the lines. -/
theorem readLines_eq (line : Nat) (d : Draft) (texts : List (List Char)) :
    d.readLines line texts = (layout line d.output.size d.labels texts).map d.extend := by
  induction texts generalizing line d with
  | nil => simp [readLines, layout, extend, references, Except.map]
  | cons text rest ih =>
    cases read : Assembly.readLine d.labels d.output.size text with
    | error cause => simp [readLines, readLine, layout, read, Except.map, bind, Except.bind]
    | ok done =>
      obtain ⟨labels, pieces⟩ := done
      have first : d.readLine line text = .ok (d.extend ⟨pieces.map (line, ·), labels⟩) := by
        simp only [readLine, read, foldl_emit]
        rfl
      have size : (d.extend ⟨pieces.map (line, ·), labels⟩).output.size =
          d.output.size + pieces.length := by simp [extend]
      have rest := ih (line + 1) (d.extend ⟨pieces.map (line, ·), labels⟩)
      rw [size] at rest
      rw [layout_cons read, readLines, first]
      refine rest.trans ?_
      change (layout _ _ labels _).map _ = _
      cases layout (line + 1) (d.output.size + pieces.length) labels _ with
      | error e => rfl
      | ok more => exact congrArg Except.ok (extend_extend _ _ more)

end Draft

theorem resolve_address (labels : Labels) (line index : Nat) (label : List Char) :
    resolve labels (line, .address label) = Reference.address labels ⟨index, label, line⟩ := rfl

theorem patch_references (labels : Labels) (done : List UInt8) (pieces : List (Nat × Piece)) :
    patch labels (done ++ pieces.map fun piece => piece.2.provisional).toArray
        (references done.length pieces) =
      (pieces.mapM (resolve labels)).map fun bytes => (done ++ bytes).toArray := by
  induction pieces generalizing done with
  | nil => rfl
  | cons piece pieces ih =>
    -- Whatever byte the first piece comes to, the rest follows behind it.
    have behind : ∀ b : UInt8,
        patch labels (done ++ b :: pieces.map fun piece => piece.2.provisional).toArray
          (references (done.length + 1) pieces) =
        ((pieces.mapM (resolve labels)).map (b :: ·)).map fun bytes => (done ++ bytes).toArray := by
      intro b
      have rest := ih (done ++ [b])
      rw [List.length_append, List.length_singleton, List.append_assoc] at rest
      refine rest.trans ?_
      cases pieces.mapM (resolve labels) <;> simp [Except.map]
    rw [List.mapM_cons]
    rcases piece with ⟨line, b | label⟩
    · refine (behind b).trans ?_
      cases pieces.mapM (resolve labels) <;> rfl
    · rw [resolve_address labels line done.length label, references, patch]
      cases Reference.address labels ⟨done.length, label, line⟩ with
      | error e => rfl
      | ok b =>
        have written : ((done ++ ((line, Piece.address label) :: pieces).map fun piece =>
            piece.2.provisional).toArray).setIfInBounds done.length b =
            (done ++ b :: pieces.map fun piece => piece.2.provisional).toArray := by
          simp
        change patch labels (Array.setIfInBounds _ _ b) _ = _
        rw [written]
        refine (behind b).trans ?_
        cases pieces.mapM (resolve labels) <;> rfl

theorem assembleText_eq_layout (source : List Char) :
    assembleText source = (do
      let plan ← layout 1 0 [] (Text.lines source)
      plan.pieces.mapM (resolve plan.labels)) := by
  rw [assembleText, Draft.readLines_eq]
  change ((layout 1 0 [] (Text.lines source)).map Draft.blank.extend >>= _) = _
  cases layout 1 0 [] (Text.lines source) with
  | error e => rfl
  | ok plan =>
    have patched : patch plan.labels (Draft.blank.extend plan).output
        (Draft.blank.extend plan).pending.toList =
        (plan.pieces.mapM (resolve plan.labels)).map List.toArray := by
      simpa [Draft.extend, Draft.blank] using patch_references plan.labels [] plan.pieces
    change (patch plan.labels _ _ >>= fun output => pure output.toList) = _
    rw [patched]
    change _ = plan.pieces.mapM (resolve plan.labels)
    cases plan.pieces.mapM (resolve plan.labels) <;> rfl

end ByteMachine.Assembly
