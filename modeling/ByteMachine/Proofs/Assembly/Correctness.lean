import ByteMachine.Proofs.Assembly.Draft
import ByteMachine.Proofs.Assembly.Grammar

/-! The assembler puts out what its source means. The labels that the lines define are
collected with the number of bytes before them, so that once all lines have been read each
label that is known is known by its one address. -/
namespace ByteMachine.Assembly
variable {address : Addresses} {label : List Char} {n offset : Nat} {labels : Labels}
  {line : SourceLine} {program : List SourceLine} {chunk : List UInt8} {chunks : List (List UInt8)}

/-! ### Addresses -/

theorem address_nil : ¬ Address [] chunks label n := by
  rintro ⟨i, line, none, -⟩
  cases none

theorem address_cons : Address (line :: program) (chunk :: chunks) label n ↔
    line.label = some label ∧ 0 = n ∨
      ∃ m, Address program chunks label m ∧ chunk.length + m = n := by
  constructor
  · rintro ⟨_ | i, other, place, defines, rfl⟩
    · cases place
      exact .inl ⟨defines, rfl⟩
    · exact .inr ⟨_, ⟨i, other, place, defines, rfl⟩, by simp⟩
  · rintro (⟨defines, rfl⟩ | ⟨_, ⟨i, other, place, defines, rfl⟩, rfl⟩)
    · exact ⟨0, line, rfl, defines, rfl⟩
    · exact ⟨i + 1, other, place, defines, by simp⟩

structure Free (labels : Labels) (names : List (List Char)) : Prop where
  nodup : names.Nodup
  unknown : ∀ name ∈ names, labels.lookup name = none

theorem free_blank {names : List (List Char)} : Free [] names ↔ names.Nodup :=
  ⟨Free.nodup, fun nodup => ⟨nodup, fun _ _ => rfl⟩⟩

theorem lookup_cons (name : List Char) : List.lookup label ((name, offset) :: labels) =
    if label = name then some offset else labels.lookup label := by
  by_cases same : label = name
  · rw [if_pos same, same, List.lookup_cons_self]
  · rw [if_neg same, List.lookup_cons, beq_eq_false_iff_ne.2 same]

theorem free_cons (offset : Nat) : Free labels (labelsOf (line :: program)) ↔
    (∀ name ∈ line.label, labels.lookup name = none) ∧
      Free (line.define labels offset) (labelsOf program) := by
  obtain ⟨_ | name, body⟩ := line
  · exact (and_iff_right nofun).symm
  · have unknown : ∀ other, List.lookup other ((name, offset) :: labels) = none ↔
        other ≠ name ∧ labels.lookup other = none := fun other => by
      rw [lookup_cons]
      split <;> simp_all
    constructor
    · rintro ⟨nodup, free⟩
      obtain ⟨fresh, nodup⟩ := List.nodup_cons.1 nodup
      obtain ⟨first, rest⟩ := List.forall_mem_cons.1 free
      refine ⟨?_, nodup, fun other mem => (unknown other).2 ⟨?_, rest other mem⟩⟩
      · rintro _ ⟨⟩
        exact first
      · rintro rfl
        exact fresh mem
    · rintro ⟨first, nodup, free⟩
      have rest := fun other mem => (unknown other).1 (free other mem)
      refine ⟨List.nodup_cons.2 ⟨fun mem => (rest _ mem).1 rfl, nodup⟩, ?_⟩
      exact List.forall_mem_cons.2 ⟨first _ rfl, fun other mem => (rest other mem).2⟩

def definitions (offset : Nat) (labels : Labels) : List SourceLine → List (List UInt8) → Labels
  | line :: program, chunk :: chunks =>
    definitions (offset + chunk.length) (line.define labels offset) program chunks
  | _, _ => labels

theorem lookup_define (free : ∀ name ∈ line.label, labels.lookup name = none) :
    (line.define labels offset).lookup label = some n ↔
      labels.lookup label = some n ∨ line.label = some label ∧ offset = n := by
  obtain ⟨_ | name, body⟩ := line
  · simp [SourceLine.define]
  · change List.lookup label ((name, offset) :: labels) = some n ↔ _
    rw [lookup_cons]
    split
    · next same =>
      subst same
      simp [free label rfl]
    · next other => simp [eq_comm.not.1 other]

theorem lookup_definitions (sizes : program.length = chunks.length)
    (free : Free labels (labelsOf program)) :
    (definitions offset labels program chunks).lookup label = some n ↔
      labels.lookup label = some n ∨ ∃ m, Address program chunks label m ∧ offset + m = n := by
  induction program generalizing offset labels chunks with
  | nil => simp [definitions, address_nil]
  | cons line program ih =>
    cases chunks with
    | nil => cases sizes
    | cons chunk chunks =>
      obtain ⟨first, rest⟩ := (free_cons offset).1 free
      rw [definitions, ih (Nat.succ.inj sizes) rest, lookup_define first, or_assoc]
      simp only [address_cons]
      refine or_congr_right ?_
      constructor
      · rintro (⟨defines, rfl⟩ | ⟨m, place, rfl⟩)
        · exact ⟨0, .inl ⟨defines, rfl⟩, rfl⟩
        · exact ⟨_, .inr ⟨m, place, rfl⟩, by omega⟩
      · rintro ⟨_, ⟨defines, rfl⟩ | ⟨m, place, rfl⟩, rfl⟩
        · exact .inl ⟨defines, rfl⟩
        · exact .inr ⟨m, place, by omega⟩

/-! ### Layout -/

theorem forall₂_append_left_iff {α β : Type} {r : α → β → Prop} {xs ys : List α} {zs : List β} :
    List.Forall₂ r (xs ++ ys) zs ↔
      ∃ us vs, List.Forall₂ r xs us ∧ List.Forall₂ r ys vs ∧ us ++ vs = zs := by
  constructor
  · intro both
    refine ⟨zs.take xs.length, zs.drop xs.length, ?_, ?_, List.take_append_drop ..⟩
    · simpa using List.forall₂_take xs.length both
    · simpa using List.forall₂_drop xs.length both
  · rintro ⟨us, vs, left, right, rfl⟩
    exact List.rel_append left right

theorem layout_iff {texts : List (List Char)} {number : Nat} {after : Labels} {bytes : List UInt8} :
    (∃ plan, layout number offset labels texts = .ok plan ∧ plan.labels = after ∧
      List.Forall₂ (fun piece b => piece.2.Stands address b) plan.pieces bytes) ↔
    ∃ program chunks, List.Forall₂ Spells texts program ∧ Free labels (labelsOf program) ∧
      definitions offset labels program chunks = after ∧
      List.Forall₂ (fun line chunk => Denotes address line.body chunk) program chunks ∧
      chunks.flatten = bytes := by
  induction texts generalizing number offset labels bytes with
  | nil =>
    constructor
    · rintro ⟨plan, laid, rfl, both⟩
      cases laid
      cases both
      exact ⟨[], [], .nil, ⟨.nil, List.forall_mem_nil _⟩, rfl, .nil, rfl⟩
    · rintro ⟨program, chunks, spelled, -, rfl, denoted, rfl⟩
      cases spelled
      cases denoted
      exact ⟨_, rfl, rfl, .nil⟩
  | cons text texts ih =>
    constructor
    · rintro ⟨plan, laid, rfl, both⟩
      obtain ⟨known, pieces, more, read, rest, rfl⟩ := layout_cons_eq_ok_iff.1 laid
      obtain ⟨line, spells, first, rfl, statement⟩ := readLine_iff.1 read
      obtain ⟨chunk, bytes, here, there, rfl⟩ := forall₂_append_left_iff.1 both
      rw [List.forall₂_map_left_iff] at here
      rw [here.length_eq] at rest
      obtain ⟨program, chunks, spelled, free, labelled, denoted, rfl⟩ :=
        ih.1 ⟨more, rest, rfl, there⟩
      exact ⟨line :: program, chunk :: chunks, .cons spells spelled, (free_cons _).2 ⟨first, free⟩,
        labelled, .cons (denotes_iff.1 ⟨pieces, statement, here⟩) denoted, rfl⟩
    · rintro ⟨program, chunks, spelling, free, rfl, meaning, rfl⟩
      obtain ⟨line, program, spells, spelled, rfl⟩ := List.forall₂_cons_left_iff.1 spelling
      obtain ⟨chunk, chunks, denotes, denoted, rfl⟩ := List.forall₂_cons_left_iff.1 meaning
      obtain ⟨pieces, statement, here⟩ := denotes_iff.2 denotes
      obtain ⟨first, others⟩ := (free_cons offset).1 free
      obtain ⟨more, rest, labelled, there⟩ :=
        ih.2 ⟨program, chunks, spelled, others, rfl, denoted, rfl⟩
      rw [← here.length_eq] at rest
      have read : readLine labels offset text = .ok (line.define labels offset, pieces) :=
        readLine_iff.2 ⟨line, spells, first, rfl, statement⟩
      exact ⟨_, layout_cons_eq_ok_iff.2 ⟨_, pieces, more, read, rest, rfl⟩, labelled,
        List.rel_append (List.forall₂_map_left_iff.2 here) there⟩

/-! ### Resolution -/

theorem resolve_eq_ok_iff {piece : Nat × Piece} {b : UInt8} :
    resolve labels piece = .ok b ↔
      piece.2.Stands (fun label n => labels.lookup label = some n) b := by
  obtain ⟨number, known | label⟩ := piece
  · exact ⟨Except.ok.inj, congrArg Except.ok⟩
  · cases found : labels.lookup label with
    | none =>
      simp [resolve, Piece.Stands, found]
    | some offset =>
      have small := b.toNat_lt
      simp only [resolve, Piece.Stands, found, Option.some.injEq]
      split
      · rw [Except.ok.injEq, ← UInt8.toNat_inj, UInt8.toNat_ofNat']
        omega
      · refine iff_of_false (fun same => ?_) (by omega)
        cases same

theorem mapM_resolve_iff {pieces : List (Nat × Piece)} {bytes : List UInt8} :
    pieces.mapM (resolve labels) = .ok bytes ↔ List.Forall₂
      (fun piece b => piece.2.Stands (fun label n => labels.lookup label = some n) b)
        pieces bytes := by
  have both : (∃ done, pieces.mapM (resolve labels) = .ok done ∧ List.Forall₂ Eq done bytes) ↔ _ :=
    Except.mapM_eq_ok_comp_iff
  simpa [resolve_eq_ok_iff] using both

/-- Source text can be assembled exactly if it spells a program whose labels are distinct and
whose statements denote bytes, each label standing for the number of bytes before it; and the
output is those bytes, line by line. -/
theorem assemble_eq_ok_iff (source : String) (bytes : List UInt8) :
    assemble source = .ok bytes ↔ ∃ program chunks,
      List.Forall₂ Spells (Text.lines source.toList) program ∧ (labelsOf program).Nodup ∧
      List.Forall₂ (fun line chunk => Denotes (Address program chunks) line.body chunk)
        program chunks ∧ chunks.flatten = bytes := by
  have found : ∀ {program : List SourceLine} {chunks : List (List UInt8)},
      program.length = chunks.length → (labelsOf program).Nodup →
        (fun label n => (definitions 0 [] program chunks).lookup label = some n) =
          Address program chunks := fun sizes nodup => by
    funext label n
    rw [lookup_definitions sizes (free_blank.2 nodup)]
    simp
  have assembled : assemble source = .ok bytes ↔
      ∃ plan, layout 1 0 [] (Text.lines source.toList) = .ok plan ∧
        plan.pieces.mapM (resolve plan.labels) = .ok bytes := by
    rw [assemble, assembleText_eq_layout, Except.bind_eq_ok_iff]
  rw [assembled]
  simp only [mapM_resolve_iff]
  constructor
  · rintro ⟨plan, laid, both⟩
    obtain ⟨program, chunks, spelled, free, labelled, denoted, rfl⟩ :=
      layout_iff.1 ⟨plan, laid, rfl, both⟩
    rw [← labelled, found denoted.length_eq free.nodup] at denoted
    exact ⟨program, chunks, spelled, free.nodup, denoted, rfl⟩
  · rintro ⟨program, chunks, spelled, nodup, denoted, rfl⟩
    rw [← found denoted.length_eq nodup] at denoted
    obtain ⟨plan, laid, labelled, both⟩ :=
      layout_iff.2 ⟨program, chunks, spelled, free_blank.2 nodup, rfl, denoted, rfl⟩
    exact ⟨plan, laid, labelled ▸ both⟩

example : assemble "LDI R0, End ; ahead\nJMP R0\nend: DB END" =
    .ok [0x99, 0, 5, 0x50, 0, 5] := rfl

end ByteMachine.Assembly
