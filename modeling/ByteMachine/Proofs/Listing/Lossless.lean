import ByteMachine.Proofs.Image
import ByteMachine.Proofs.Listing.RoundTrip
import ByteMachine.Proofs.Result

/-! Listings lose nothing. The lines of a listing are read back without the instructions on them:
the numbers in front of the colons are where the bytes behind the semicolons are in the program,
and these bytes are all of it, whether they are instructions, data or cut off at the end. -/
namespace ByteMachine
open Text

/-- How far the listing of a program has come: the next address, and the rows in front of it. -/
structure Scan where
  address : Nat
  rows : List Row

namespace Scan

def next (s : Scan) (bytes : List UInt8) : Scan :=
  let item := Item.atAddress bytes s.address
  ⟨s.address + item.size, s.rows ++ [⟨s.address, item, (bytes.drop s.address).take item.size⟩]⟩

def finish? (s : Scan) (bytes : List UInt8) : Option (List Row) :=
  if s.address < bytes.length then s.next bytes |>.finish? bytes else some s.rows
partial_fixpoint

theorem finish?_eq_sweep (s : Scan) (bytes : List UInt8) :
    s.finish? bytes = some (s.rows ++ Row.sweep s.address (bytes.drop s.address)) := by
  obtain ⟨address, rows⟩ := s
  generalize rest : bytes.drop address = tail
  induction address, tail using Row.sweep_induction generalizing rows with
  | nil address =>
    have done : ¬ address < bytes.length := Nat.not_lt.2 (List.drop_eq_nil_iff.1 rest)
    rw [finish?, if_neg done, Row.sweep_nil, List.append_nil]
  | cons address byte more ih =>
    have inside : address < bytes.length := by
      rw [← Nat.not_le, ← List.drop_eq_nil_iff, rest]
      exact List.cons_ne_nil _ _
    have item : Item.atAddress bytes address = Item.first (byte :: more) := by
      rw [Item.atAddress, rest]
    rw [finish?, if_pos inside, Row.sweep_cons]
    simp only [next, item, rest]
    rw [ih _ (by rw [← rest, List.drop_drop]), List.append_assoc, List.singleton_append]

end Scan

namespace Listing

structure Entry where
  address : Nat
  bytes : List UInt8
deriving DecidableEq

def comment (line : List Char) : List (List Char) :=
  (fields ' ' (line.dropWhile (· != ';')).tail).filter (· ≠ [])

def entryOf? (line : List Char) : Option Entry := do
  let address ← readNat? 10 (before (· == ':') line)
  let bytes ← (comment line).mapM Image.byte?
  return ⟨address, bytes⟩

def entries? (listing : String) : Option (List Entry) :=
  let all := lines listing.toList
  if all.take headerLines.length = headerLines then (all.drop headerLines.length).mapM entryOf?
  else none

theorem words_intercalate {words : List (List Char)}
    (solid : ∀ word ∈ words, word ≠ [] ∧ Word word) :
    (fields ' ' ([' '].intercalate words)).filter (· ≠ []) = words := by
  cases words with
  | nil => rfl
  | cons word more =>
    have cut : fields ' ' ([' '].intercalate (word :: more)) = word :: more :=
      fields_eq_iff.2 ⟨List.cons_ne_nil _ _,
        fun part mem => (solid part mem).2.not_mem rfl, rfl⟩
    rw [cut, List.filter_eq_self]
    exact fun part mem => decide_eq_true (solid part mem).1

theorem line_uncommented (row : Row) :
    ∃ front, row.line = front ++ ';' :: row.bits ∧ ∀ c ∈ front, c ≠ ';' := by
  refine ⟨padded 10 3 row.address ++ ':' :: ' ' :: (row.item.source ++ row.gap), ?_, ?_⟩
  · simp only [row.line_eq, Row.shown, List.append_assoc, List.cons_append]
  · intro c mem
    rcases List.mem_append.1 mem with digit | mem
    · rintro rfl
      exact row.word_address.not_mem rfl digit
    · simp only [List.mem_cons, List.mem_append] at mem
      rcases mem with rfl | rfl | source | blank
      · decide
      · decide
      · exact (row.item.plain_source.2.1 c source).1
      · rintro rfl
        exact absurd (row.isBlank_gap _ blank) (by decide)

theorem comment_line (row : Row) : comment row.line = row.bytes.map binary := by
  obtain ⟨front, split, plain⟩ := line_uncommented row
  have words : ∀ word ∈ row.bytes.map binary, word ≠ [] ∧ Word word := by
    intro word mem
    obtain ⟨byte, -, rfl⟩ := List.mem_map.1 mem
    exact ⟨padded_ne_nil 2 8 byte.toNat, Word.binary byte⟩
  have dropped : row.line.dropWhile (· != ';') = ';' :: row.bits := by
    rw [split, List.dropWhile_append_of_pos fun c mem => bne_iff_ne.2 (plain c mem)]
    rfl
  rw [comment, dropped, List.tail_cons, Row.bits, fields, if_pos rfl,
    List.filter_cons_of_neg (by decide), words_intercalate words]

theorem entryOf?_line (row : Row) : entryOf? row.line = some ⟨row.address, row.bytes⟩ := by
  have digits : ∀ c ∈ padded 10 3 row.address, (c == ':') = false := by
    intro c mem
    rw [beq_eq_false_iff_ne]
    rintro rfl
    exact row.word_address.not_mem rfl mem
  have number : before (· == ':') row.line = padded 10 3 row.address := by
    rw [row.line_eq, before_append digits rfl]
  have bytes : (row.bytes.map binary).mapM Image.byte? = some row.bytes := by
    have each : ∀ byte ∈ row.bytes, (Image.byte? ∘ binary) byte = some (id byte) :=
      fun byte _ => Image.byte?_binary byte
    rw [List.mapM_map, Option.mapM_eq_some each, List.map_id]
  rw [entryOf?, number, readNat?_padded (by decide) (by decide), comment_line, bytes]
  rfl

theorem entries?_disassemble (bytes : List UInt8) :
    entries? (disassemble bytes) =
      some ((Row.sweep 0 bytes).map fun row => ⟨row.address, row.bytes⟩) := by
  have all : lines (disassemble bytes).toList = headerLines ++ (Row.sweep 0 bytes).map Row.line := by
    rw [disassemble, String.toList_ofList, lines_ofBytes]
  simp only [entries?, all, List.take_left, if_pos, List.drop_left, List.mapM_map]
  exact Option.mapM_eq_some fun row _ => entryOf?_line row

/-- Going from item to item comes to an end, and the listing of the rows that are found on the way
shows the program: its lines begin at zero, each is as far behind the one before as that one shows
bytes, and all the bytes that are shown, in their order, are the program. -/
theorem disassemble_lossless (bytes : List UInt8) :
    Scan.finish? ⟨0, []⟩ bytes = some (Row.sweep 0 bytes) ∧
    ∃ entries, entries? (disassemble bytes) = some entries ∧
      (∀ first ∈ entries.head?, first.address = 0) ∧
      (∀ entry ∈ entries, entry.bytes ≠ []) ∧
      entries.Pairwise (·.address < ·.address) ∧
      entries.IsChain (fun entry next => next.address = entry.address + entry.bytes.length) ∧
      entries.flatMap Entry.bytes = bytes := by
  refine ⟨Scan.finish?_eq_sweep ⟨0, []⟩ bytes, _, entries?_disassemble bytes, ?_, ?_, ?_, ?_, ?_⟩
  · intro first begins
    rw [List.head?_map, Option.mem_map] at begins
    obtain ⟨row, begins, rfl⟩ := begins
    exact Row.head?_sweep 0 bytes row begins
  · intro entry mem
    obtain ⟨row, swept, rfl⟩ := List.mem_map.1 mem
    exact Row.bytes_ne_nil swept
  · rw [List.pairwise_map]
    exact Row.sweep_ascending 0 bytes
  · rw [List.isChain_map]
    exact (Row.sweep_chain 0 bytes).imp fun row next follows =>
      follows.2.trans (congrArg (row.address + ·) follows.1.symm)
  · rw [List.flatMap_map]
    exact Row.flatMap_bytes 0 bytes

end Listing

end ByteMachine
