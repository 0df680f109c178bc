import ByteMachine.Proofs.Assembly.Draft
import ByteMachine.Proofs.Listing.Sweep

/-! Listings are source. A row with its address is read as a label and the item, and
without the address as the item; addresses ascend, so no label is defined twice. -/
namespace ByteMachine
open Text Assembly

namespace Row

def gap (row : Row) : List Char := List.replicate (14 - row.item.source.length + 1) ' '

def bits (row : Row) : List Char := ' ' :: [' '].intercalate (row.bytes.map binary)

def shown (row : Row) : List Char := row.item.source ++ row.gap ++ ';' :: row.bits

theorem line_eq (row : Row) : row.line = padded 10 3 row.address ++ ':' :: ' ' :: row.shown := by
  simp only [line, shown, gap, bits, List.rightpad, List.replicate_succ', List.append_assoc,
    List.cons_append, List.nil_append]

theorem isBlank_gap (row : Row) : ∀ c ∈ row.gap, isBlank c := by
  intro c mem
  rw [List.eq_of_mem_replicate mem]
  decide

theorem word_address (row : Row) : Word (padded 10 3 row.address) :=
  Word.padded (by decide) (by decide) 3 row.address

theorem ofText_shown (row : Row) : Line.ofText row.shown = ⟨none, row.item.source⟩ :=
  Line.ofText_statement row.item.trimmed_source row.item.plain_source.2.1
    row.item.plain_source.2.2 row.isBlank_gap row.bits

theorem ofText_line (row : Row) :
    Line.ofText row.line = ⟨some (padded 10 3 row.address), row.item.source⟩ := by
  have read := Line.ofText_label row.word_address (padded_ne_nil 10 3 row.address)
    row.item.trimmed_source row.item.source_ne_nil row.item.plain_source.2.1 row.isBlank_gap row.bits
  simpa only [line_eq, shown, List.append_assoc, List.cons_append] using read

theorem oneLine_bits (row : Row) : OneLine row.bits := by
  have blank : OneLine [' '] := by simp [OneLine]
  refine blank.append (blank.intercalate fun word mem => ?_)
  obtain ⟨byte, -, rfl⟩ := List.mem_map.1 mem
  exact OneLine.of_word (Word.binary byte)

theorem oneLine_shown (row : Row) : OneLine row.shown := by
  have semicolon : OneLine [';'] := by simp [OneLine]
  have gap : OneLine row.gap := by
    intro c mem
    rw [List.eq_of_mem_replicate mem]
    decide
  exact (row.item.plain_source.1.append gap).append (semicolon.append row.oneLine_bits)

theorem oneLine_line (row : Row) : OneLine row.line := by
  have colon : OneLine [':', ' '] := by simp [OneLine]
  rw [line_eq]
  exact (OneLine.of_word row.word_address).append (colon.append row.oneLine_shown)

def Named (row : Row) : Prop := ∀ operand ∈ row.item.registerOperands, operand.toNat < 8

theorem statement_eq_ok_iff {row : Row} {pieces : List Piece} :
    statement row.item.source = .ok pieces ↔ row.Named ∧ row.item.encode.map .byte = pieces := by
  rw [row.item.statement_source, Except.map_eq_ok_iff]
  exact ⟨fun ⟨_, named, same⟩ => ⟨checkRegisters_eq_ok_iff.1 named, same⟩,
    fun ⟨named, same⟩ => ⟨(), checkRegisters_eq_ok_iff.2 named, same⟩⟩

def Below (address : Nat) (labels : Labels) : Prop :=
  ∀ entry ∈ labels, ∃ n < address, entry.1 = padded 10 3 n

theorem Below.mono {address next : Nat} {labels : Labels} (below : Below address labels)
    (le : address ≤ next) : Below next labels := fun entry mem => by
  obtain ⟨n, less, name⟩ := below entry mem
  exact ⟨n, Nat.lt_of_lt_of_le less le, name⟩

theorem Below.lookup {address : Nat} {labels : Labels} (below : Below address labels) :
    labels.lookup (padded 10 3 address) = none := by
  rw [List.lookup_eq_none_iff]
  intro entry mem
  obtain ⟨n, less, name⟩ := below entry mem
  have other : padded 10 3 address ≠ padded 10 3 n := fun same =>
    Nat.ne_of_gt less (padded_injective (by decide) (by decide) same)
  simpa [name] using other

theorem Below.define {address : Nat} {labels : Labels} (below : Below address labels)
    (offset : Nat) :
    Assembly.define labels offset (some (padded 10 3 address)) =
      .ok ((padded 10 3 address, offset) :: labels) := by
  have digits : ∀ c ∈ padded 10 3 address, isDigit 10 c :=
    isDigit_of_mem_padded (by decide) (by decide) 3 address
  exact define_eq_ok_iff.2
    ⟨_, labelName_of_digits (padded_ne_nil 10 3 address) digits, below.lookup, rfl⟩

/-- A way to write rows so that each line is read as the item of its row, with the
address as its label or without a label. -/
structure Readable (write : Row → List Char) : Prop where
  body : ∀ row, (Line.ofText (write row)).body = row.item.source
  label : ∀ row, (Line.ofText (write row)).label = none ∨
    (Line.ofText (write row)).label = some (padded 10 3 row.address)

theorem readable_line : Readable line where
  body row := by rw [ofText_line]
  label row := .inr (by rw [ofText_line])

theorem readable_shown : Readable shown where
  body row := by rw [ofText_shown]
  label row := .inl (by rw [ofText_shown])

variable {write : Row → List Char} {labels : Labels}

theorem Readable.define (readable : Readable write) (row : Row) (below : Below row.address labels)
    (offset : Nat) :
    ∃ after, Assembly.define labels offset (Line.ofText (write row)).label = .ok after ∧
      Below (row.address + 1) after := by
  have earlier := below.mono (Nat.le_succ _)
  rcases readable.label row with label | label
  · exact ⟨labels, by rw [label]; rfl, earlier⟩
  · rw [label, below.define]
    refine ⟨_, rfl, fun entry mem => ?_⟩
    rcases List.mem_cons.1 mem with rfl | mem
    · exact ⟨row.address, Nat.lt_succ_self _, rfl⟩
    · exact earlier entry mem

theorem Readable.layout (readable : Readable write) {rows : List Row}
    (ascending : rows.Pairwise (·.address < ·.address))
    (below : ∀ row ∈ rows, Below row.address labels) (number offset : Nat) :
    (∃ plan, Assembly.layout number offset labels (rows.map write) = .ok plan ∧
      plan.pieces.map Prod.snd = (rows.flatMap (·.item.encode)).map .byte ∧
      ∀ row ∈ rows, row.Named) ∨
    (∃ e, Assembly.layout number offset labels (rows.map write) = .error e) ∧
      ¬ ∀ row ∈ rows, row.Named := by
  induction rows generalizing number offset labels with
  | nil => exact .inl ⟨⟨[], labels⟩, rfl, rfl, List.forall_mem_nil _⟩
  | cons row rows ih =>
    obtain ⟨after, defined, earlier⟩ := readable.define row (below row List.mem_cons_self) offset
    obtain ⟨first, ascending⟩ := List.pairwise_cons.1 ascending
    by_cases named : row.Named
    · have read : readLine labels offset (write row) = .ok (after, row.item.encode.map .byte) :=
        readLine_eq_ok_iff.2
          ⟨defined, by rw [readable.body]; exact statement_eq_ok_iff.2 ⟨named, rfl⟩⟩
      have later : ∀ next ∈ rows, Below next.address after := fun next mem =>
        earlier.mono (first next mem)
      rw [List.map_cons, layout_cons read]
      rcases ih ascending later (number + 1) (offset + (row.item.encode.map Piece.byte).length) with
        ⟨plan, laid, pieces, all⟩ | ⟨⟨e, failed⟩, wrong⟩
      · refine .inl ⟨_, by rw [laid]; rfl, ?_, List.forall_mem_cons.2 ⟨named, all⟩⟩
        simp only [List.map_append, List.map_map, pieces, List.flatMap_cons]
        rfl
      · refine .inr ⟨⟨e, by rw [failed]; rfl⟩, fun all => wrong fun next mem => ?_⟩
        exact all next (List.mem_cons_of_mem _ mem)
    · refine .inr ⟨?_, fun all => named (all row List.mem_cons_self)⟩
      cases laid : Assembly.layout number offset labels ((row :: rows).map write) with
      | error e => exact ⟨e, rfl⟩
      | ok plan =>
        obtain ⟨_, pieces, _, read, -⟩ := layout_cons_eq_ok_iff.1 laid
        have statement := (readLine_eq_ok_iff.1 read).2
        rw [readable.body] at statement
        exact absurd (statement_eq_ok_iff.1 statement).1 named

theorem Readable.assembleText_eq_ok_iff (readable : Readable write) {rows : List Row}
    (ascending : rows.Pairwise (·.address < ·.address)) {source : List Char}
    {header : List (List Char)} (silent : ∀ text ∈ header, Line.ofText text = ⟨none, []⟩)
    (written : lines source = header ++ rows.map write) {bytes : List UInt8} :
    assembleText source = .ok bytes ↔
      rows.flatMap (·.item.encode) = bytes ∧ ∀ row ∈ rows, row.Named := by
  have fresh : ∀ row ∈ rows, Below row.address [] := fun _ _ => List.forall_mem_nil _
  rw [assembleText_eq_layout, written, layout_of_blank silent]
  rcases readable.layout ascending fresh (1 + header.length) 0 with
    ⟨plan, laid, pieces, named⟩ | ⟨⟨e, failed⟩, wrong⟩
  · rw [laid]
    change plan.pieces.mapM (resolve plan.labels) = .ok bytes ↔ _
    rw [mapM_resolve_byte pieces, Except.ok.injEq]
    exact (and_iff_left named).symm
  · rw [failed]
    exact iff_of_false (fun h => nomatch h) fun both => wrong both.2

end Row

namespace Listing

def afterAddress : List Char → Option (List Char)
  | [] => none
  | ':' :: ' ' :: rest => some rest
  | _ :: rest => afterAddress rest

/-- A listing without its addresses; lines that have none are dropped. -/
def withoutAddresses (listing : String) : String :=
  String.ofList (unlines ((lines listing.toList).filterMap afterAddress))

theorem afterAddress_append {address : List Char} (word : Word address) (rest : List Char) :
    afterAddress (address ++ ':' :: ' ' :: rest) = some rest := by
  induction address with
  | nil => rfl
  | cons c address ih =>
    have other : c ≠ ':' := by
      rintro rfl
      exact word.not_mem rfl List.mem_cons_self
    rw [List.cons_append, afterAddress.eq_3 _ _ (fun _ same _ => absurd same other)]
    exact ih fun d mem => word d (List.mem_cons_of_mem _ mem)

def headerLines : List (List Char) :=
  ["; LS-8 Disassembly".toList, "; ----------------".toList, []]

theorem header_eq : header = unlines headerLines := by decide

theorem silent_header : ∀ text ∈ headerLines, Assembly.Line.ofText text = ⟨none, []⟩ := by decide

theorem ofBytes_eq_unlines (bytes : List UInt8) :
    ofBytes bytes = unlines (headerLines ++ (Row.sweep 0 bytes).map Row.line) := by
  simp only [ofBytes, header_eq, unlines, List.flatMap_append, List.flatMap_map]

theorem oneLine_listed (bytes : List UInt8) :
    ∀ line ∈ headerLines ++ (Row.sweep 0 bytes).map Row.line, OneLine line := by
  have title : ∀ line ∈ headerLines, OneLine line := by
    have plain : headerLines.all fun line => line.all fun c => c != '\n' && c != '\r' := by decide
    simpa [OneLine] using plain
  intro line mem
  rcases List.mem_append.1 mem with mem | mem
  · exact title line mem
  · obtain ⟨row, -, rfl⟩ := List.mem_map.1 mem
    exact row.oneLine_line

theorem lines_ofBytes (bytes : List UInt8) :
    lines (ofBytes bytes) = headerLines ++ (Row.sweep 0 bytes).map Row.line := by
  rw [ofBytes_eq_unlines, lines_unlines (oneLine_listed bytes)]

theorem lines_ofBytes_feed (bytes : List UInt8) :
    lines (ofBytes bytes ++ ['\n']) =
      headerLines ++ (Row.sweep 0 bytes).map Row.line ++ [[]] := by
  have joined : ofBytes bytes ++ ['\n'] =
      unlines (headerLines ++ (Row.sweep 0 bytes).map Row.line ++ [[]]) := by
    simp only [ofBytes_eq_unlines, unlines, List.flatMap_append, List.flatMap_singleton,
      List.nil_append]
  rw [joined, lines_unlines]
  intro line mem
  rcases List.mem_append.1 mem with mem | mem
  · exact oneLine_listed bytes line mem
  · rw [List.mem_singleton.1 mem]
    exact List.forall_mem_nil _

theorem filterMap_afterAddress (bytes : List UInt8) :
    (lines (ofBytes bytes)).filterMap afterAddress = (Row.sweep 0 bytes).map Row.shown := by
  have rows : ∀ row : Row, afterAddress row.line = some row.shown := fun row => by
    rw [row.line_eq, afterAddress_append row.word_address]
  have none : headerLines.filterMap afterAddress = [] := by decide
  rw [lines_ofBytes, List.filterMap_append, none, List.nil_append, List.filterMap_map]
  simp only [Function.comp_def, rows, List.filterMap_eq_map']

theorem assemble_printed {bytes : List UInt8}
    (faithful : ∀ row ∈ Row.sweep 0 bytes, row.Whole ∧ row.Named) :
    assemble (disassemble bytes ++ "\n") = .ok bytes := by
  have whole := (Row.flatMap_encode_eq_iff 0 bytes).2 fun row mem => (faithful row mem).1
  have assembled := (Row.readable_line.assembleText_eq_ok_iff (Row.sweep_ascending 0 bytes)
    silent_header (lines_ofBytes bytes)).2 ⟨whole, fun row mem => (faithful row mem).2⟩
  have empty : ∀ text ∈ [[]], Line.ofText text = ⟨none, []⟩ := by decide
  rw [assembleText_eq_layout, lines_ofBytes] at assembled
  rw [assemble, disassemble, String.toList_append, String.toList_ofList, assembleText_eq_layout]
  change (layout 1 0 [] (lines (ofBytes bytes ++ ['\n'])) >>= _) = _
  rw [lines_ofBytes_feed, layout_append_of_blank empty]
  exact assembled

/-- A listing is source for the bytes it lists exactly if no row is cut off and every
operand that has to name a register names one, with or without its addresses. -/
theorem assemble_disassemble (bytes : List UInt8) :
    (assemble (disassemble bytes) = .ok bytes ↔
      ∀ row ∈ Row.sweep 0 bytes, row.Whole ∧ row.Named) ∧
    (assemble (withoutAddresses (disassemble bytes)) = .ok bytes ↔
      ∀ row ∈ Row.sweep 0 bytes, row.Whole ∧ row.Named) := by
  have ascending := Row.sweep_ascending 0 bytes
  have faithful : ((Row.sweep 0 bytes).flatMap (·.item.encode) = bytes ∧
      ∀ row ∈ Row.sweep 0 bytes, row.Named) ↔
      ∀ row ∈ Row.sweep 0 bytes, row.Whole ∧ row.Named := by
    rw [Row.flatMap_encode_eq_iff]
    simp only [imp_and, forall_and]
  have shown : lines (unlines ((Row.sweep 0 bytes).map Row.shown)) =
      [] ++ (Row.sweep 0 bytes).map Row.shown := by
    refine lines_unlines fun line mem => ?_
    obtain ⟨row, -, rfl⟩ := List.mem_map.1 mem
    exact row.oneLine_shown
  simp only [assemble, disassemble, withoutAddresses, String.toList_ofList,
    filterMap_afterAddress]
  exact ⟨(Row.readable_line.assembleText_eq_ok_iff ascending silent_header
      (lines_ofBytes bytes)).trans faithful,
    (Row.readable_shown.assembleText_eq_ok_iff ascending (List.forall_mem_nil _)
      shown).trans faithful⟩

end Listing

end ByteMachine
