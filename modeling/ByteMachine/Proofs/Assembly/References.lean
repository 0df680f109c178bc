import ByteMachine.Proofs.Assembly.OneStatement
import ByteMachine.Proofs.Assembly.Relocation

/-! Which labels can be referred to. A label is any text without blanks in front of a colon, but a
value operand ends at a comma and is a number if it starts like one; so a label is referred to by
its own spelling exactly if that holds no comma and is not read as another number. -/
namespace ByteMachine.Assembly
open Text
variable {t spelling : List Char} {texts : List (List Char)} {bytes more : List UInt8}
  {source : String} {address : Addresses}

inductive Labelled (spelling : List Char) : List Char → Prop
  | intro {t code front after : List Char} (cut : Uncommented t code)
      (trimmed : Padded code (front ++ ':' :: after)) (first : ':' ∉ front)
      (label : Padded front spelling) : Labelled spelling t

/-- One of the lines, which all keep the rules, has a label that is spelled like this, and the
lines before it come to `n` bytes. -/
inductive DefinedAt (texts : List (List Char)) (spelling : List Char) (n : Nat) : Prop
  | intro {program : List SourceLine} {chunks : List (List Piece)} {i : Nat} {t : List Char}
      (reading : Reading texts program chunks) (line : texts[i]? = some t)
      (labelled : Labelled spelling t) (behind : (chunks.take i).flatten.length = n) :
      DefinedAt texts spelling n

/-! ### One more statement -/

theorem assemble_append_statement {plan : Layout}
    (laid : layout 1 0 [] (lines source.toList) = .ok plan)
    (assembled : assemble source = .ok bytes) (single : OneStatement t) :
    assemble (source ++ "\n" ++ String.ofList t) = .ok (bytes ++ more) ↔
      Denotes (fun label n => plan.labels.lookup label = some n) t more := by
  obtain ⟨-, -, -, -, -, split⟩ := lines_feed source
  have fed : layout 1 0 [] (lines (source ++ "\n").toList) = .ok plan :=
    (layout_feed source).trans laid
  have first : plan.pieces.mapM (resolve plan.labels) = .ok bytes := by
    rw [assemble, assembleText_eq_layout, laid] at assembled
    exact assembled
  rw [assemble, assembleText_eq_layout, split, String.toList_ofList, single.lines_eq,
    layout_append fed, single.layout_eq, ← denotes_iff]
  cases statement t with
  | error cause =>
    refine iff_of_false (fun ended => ?_) ?_
    · cases ended
    · rintro ⟨_, ⟨⟩, -⟩
  | ok pieces =>
    change (plan.pieces ++ pieces.map _).mapM (resolve plan.labels) = _ ↔ _
    rw [Except.mapM_append first, Except.map_eq_ok_iff]
    simp only [List.append_cancel_left_eq, exists_eq_right, Except.ok.injEq, exists_eq_left',
      mapM_resolve_iff, List.forall₂_map_left_iff]

/-! ### Values -/

theorem denotes_data_iff {word : List Char} {operands : List (List Char)}
    (phrase : Phrase t word operands) (name : DataWord word) (filled : operands ≠ []) :
    Denotes address t bytes ↔ List.Forall₂ (ValueOperand address) operands bytes := by
  rw [← denotes_iff, statement_of_directive phrase name filled]
  exact mapM_value_iff

theorem operands_ne_nil (filled : t ≠ []) : operands t ≠ [] := by
  rw [operands, if_neg filled]
  intro none
  have count := congrArg List.length none
  rw [List.length_map, fields_length] at count
  cases count

theorem valueOperands_iff (trimmed : Trimmed t) (filled : t ≠ []) {b : UInt8} :
    List.Forall₂ (ValueOperand address) (operands t) [b] ↔
      ',' ∉ t ∧ ValueOperand address t b := by
  by_cases comma : ',' ∈ t
  · refine iff_of_false (fun values => ?_) fun both => both.1 comma
    have count := values.length_eq
    rw [operands, if_neg filled, List.length_map, fields_length] at count
    have some : 0 < t.count ',' := List.count_pos_iff.2 comma
    simp only [List.length_singleton] at count
    omega
  · rw [operands_of_single trimmed filled comma, and_iff_right comma]
    simp [List.forall₂_cons_left_iff]

theorem valueOperand_of_label {b : UInt8} (there : address (uppercase t) b.toNat) :
    ValueOperand address t b ↔ (StartsNumber t → Numeral t b.toNat) := by
  constructor
  · rintro (numeral | ⟨other, -⟩) start
    · exact numeral
    · exact absurd start other
  · intro number
    by_cases start : StartsNumber t
    · exact .number (number start)
    · exact .label start there

/-! ### Labels -/

namespace Labelled

theorem defines (labelled : Labelled spelling t) {line : SourceLine} (spells : Spells t line) :
    spelling ≠ [] ∧ (∀ c ∈ spelling, isBlank c = false) ∧
      line.label = some (uppercase spelling) := by
  obtain ⟨cut, trimmed, first, label⟩ := labelled
  obtain ⟨name, body⟩ := line
  obtain ⟨names, -⟩ := spells_iff.1 spells
  rw [ofText_label_eq_some_iff.2 ⟨_, _, cut, trimmed, first⟩] at names
  obtain ⟨read⟩ := names
  obtain ⟨inner, same, some, solid, rfl⟩ := labelName_eq_ok_iff.1 read
  obtain rfl : inner = spelling := (trim_eq_iff.2 same).symm.trans (trim_eq_iff.2 label)
  refine ⟨mt uppercase_eq_nil_iff.2 some, fun c mem => ?_, rfl⟩
  rw [Bool.eq_false_iff]
  intro blank
  obtain ⟨d, capital, blank⟩ := exists_blank_uppercase.2 ⟨c, mem, blank⟩
  rw [solid d capital] at blank
  cases blank

theorem plain (labelled : Labelled spelling t) : ∀ c ∈ spelling, c ≠ ':' ∧ c ≠ ';' ∧ c ≠ '#' := by
  obtain ⟨⟨code, -⟩, trimmed, first, label⟩ := labelled
  intro c mem
  have front := label.subset mem
  refine ⟨?_, code c (trimmed.subset (List.mem_append_left _ front))⟩
  rintro rfl
  exact first front

end Labelled

/-- A text is assembled behind another one as `DB` and the spelling of a label of that text. If the
label is at a byte, this adds that byte exactly if the spelling holds no comma and, should it start
like a number, is one for that very byte. -/
theorem assemble_reference (assembled : assemble source = .ok bytes) {a : UInt8}
    (defined : DefinedAt (lines source.toList) spelling a.toNat) :
    assemble (source ++ "\n" ++ ("DB " ++ String.ofList spelling)) = .ok (bytes ++ [a]) ↔
      ',' ∉ spelling ∧ (StartsNumber spelling → Numeral spelling a.toNat) := by
  obtain @⟨program, chunks, i, t, reading, found, labelled, behind⟩ := defined
  obtain ⟨line, -, place, spells, -⟩ := reading.line found
  obtain ⟨filled, solid, name⟩ := labelled.defines spells
  have single : OneStatement spelling := .of_solid filled solid labelled.plain
  have known : (labelsAfter 0 [] program chunks).lookup (uppercase spelling) = some a.toNat :=
    (lookup_labelsAfter reading.emitted.length_eq reading.distinct).2
      ⟨i, line, place, name, behind⟩
  have text : "DB " ++ String.ofList spelling =
      String.ofList ("DB".toList ++ ' ' :: spelling) := by simp [← String.toList_inj]
  have word : Word "DB".toList := List.all_eq_true.1 rfl
  rw [text, assemble_append_statement (layout_of_reading reading) assembled
    (single.behind word (by decide)), denotes_data_iff (phrase_of_word word single.trimmed)
    (.inl rfl) (operands_ne_nil filled), valueOperands_iff single.trimmed filled]
  exact and_congr_right fun _ => valueOperand_of_label known

theorem assemble_reference_end :
    assemble "HLT\nend: DB 5" = .ok [1, 5] ∧
    DefinedAt (lines "HLT\nend: DB 5".toList) "end".toList (1 : UInt8).toNat ∧
    assemble ("HLT\nend: DB 5" ++ "\n" ++ ("DB " ++ String.ofList "end".toList)) =
      .ok ([1, 5] ++ [1]) := by
  have assembled : assemble "HLT\nend: DB 5" = .ok [1, 5] := rfl
  have halt : Spells "HLT".toList ⟨none, "HLT".toList⟩ := spells_iff.2 ⟨.none, rfl⟩
  have data : Spells "end: DB 5".toList ⟨some "END".toList, "DB 5".toList⟩ :=
    spells_iff.2 ⟨.some rfl, rfl⟩
  have reading : Reading (lines "HLT\nend: DB 5".toList)
      [⟨none, "HLT".toList⟩, ⟨some "END".toList, "DB 5".toList⟩] [[.byte 1], [.byte 5]] :=
    ⟨.cons halt (.cons data .nil), by decide,
      .cons (((statement_exact _).ok _).1 rfl) (.cons (((statement_exact _).ok _).1 rfl) .nil)⟩
  have colon : Padded "end: DB 5".toList ("end".toList ++ ':' :: " DB 5".toList) :=
    trim_eq_iff.1 rfl
  have labelled : Labelled "end".toList "end: DB 5".toList :=
    .intro (uncommented_iff.2 rfl) colon (by decide) (trim_eq_iff.1 rfl)
  have defined : DefinedAt (lines "HLT\nend: DB 5".toList) "end".toList (1 : UInt8).toNat :=
    .intro (i := 1) reading rfl labelled rfl
  have letter : ¬ StartsNumber "end".toList := startsNumber_cons.not.2 (by decide)
  exact ⟨assembled, defined, (assemble_reference assembled defined).2
    ⟨by decide, fun start => absurd start letter⟩⟩

/-- A label that is spelled like a number can be defined and cannot be referred to. -/
theorem number_is_no_reference :
    assemble "7: HLT" = .ok [1] ∧
    DefinedAt (lines "7: HLT".toList) "7".toList (0 : UInt8).toNat ∧
    assemble ("7: HLT" ++ "\n" ++ ("DB " ++ String.ofList "7".toList)) = .ok [1, 7] ∧
    assemble ("7: HLT" ++ "\n" ++ ("DB " ++ String.ofList "7".toList)) ≠ .ok ([1] ++ [0]) := by
  have assembled : assemble ("7: HLT" ++ "\n" ++ ("DB " ++ String.ofList "7".toList)) =
      .ok [1, 7] := rfl
  have spells : Spells "7: HLT".toList ⟨some "7".toList, "HLT".toList⟩ :=
    spells_iff.2 ⟨.some rfl, rfl⟩
  have reading : Reading (lines "7: HLT".toList) [⟨some "7".toList, "HLT".toList⟩] [[.byte 1]] :=
    ⟨.cons spells .nil, by decide, .cons (((statement_exact _).ok _).1 rfl) .nil⟩
  have colon : Padded "7: HLT".toList ("7".toList ++ ':' :: " HLT".toList) := trim_eq_iff.1 rfl
  have labelled : Labelled "7".toList "7: HLT".toList :=
    .intro (uncommented_iff.2 rfl) colon (by decide) (trim_eq_iff.1 rfl)
  refine ⟨rfl, .intro (i := 0) reading rfl labelled rfl, assembled, ?_⟩
  rw [assembled]
  decide

end ByteMachine.Assembly
