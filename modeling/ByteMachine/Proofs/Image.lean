import ByteMachine.Image
import ByteMachine.Proofs.Text.Line
import ByteMachine.Proofs.Text.Numeral
import Mathlib.Data.Nat.Digits.Defs

/-! An image that is written reads back as the same bytes. Each row spells a byte in front of a
comment, and what stands above the rows is comments and a blank line. -/
namespace ByteMachine.Image

theorem length_binary (b : UInt8) : (Text.binary b).length = 8 := by
  have short : (Nat.toDigits 2 b.toNat).length ≤ 8 :=
    Nat.toDigits_length 2 b.toNat 8 (by decide) b.toNat_lt
  rw [Text.binary, Text.padded, List.length_leftpad, Nat.max_eq_left short]

theorem byte?_binary (b : UInt8) : byte? (Text.binary b) = some b := by
  rw [byte?, if_pos (Nat.le_of_eq (length_binary b)), Text.binary,
    Text.readNat?_padded (by decide) (by decide), Option.map_some, UInt8.ofNat_toNat]

def row (byte : UInt8) (address : Nat) : List Char :=
  Text.binary byte ++ [' ', '#', ' '] ++ Text.padded 10 3 address

def rows (bytes : List UInt8) : List (List Char) :=
  bytes.zipIdx.map fun (byte, address) => row byte address

def headLines (count : Nat) : List (List Char) :=
  ["# LS-8 program image".toList, '#' :: ' ' :: (Text.decimal count ++ " bytes".toList), []]

theorem header_eq (count : Nat) : header count = Text.unlines (headLines count) := by
  have first : "# LS-8 program image\n# ".toList =
      "# LS-8 program image".toList ++ ['\n', '#', ' '] := by decide
  have last : " bytes\n\n".toList = " bytes".toList ++ ['\n', '\n'] := by decide
  unfold header Text.unlines headLines
  rw [first, last]
  simp only [List.flatMap_cons, List.flatMap_nil, List.append_assoc, List.cons_append,
    List.nil_append]

theorem write_eq_unlines (image : Image) :
    image.write = Text.unlines (headLines image.bytes.length ++ rows image.bytes) := by
  simp only [write, header_eq, Text.unlines, rows, List.flatMap_append, List.flatMap_map]
  rfl

theorem oneLine_headLines (count : Nat) : ∀ line ∈ headLines count, Text.OneLine line := by
  have title : Text.OneLine "# LS-8 program image".toList := .of_all (by decide)
  have mark : Text.OneLine ['#', ' '] := .of_all (by decide)
  have unit : Text.OneLine " bytes".toList := .of_all (by decide)
  intro line mem
  simp only [headLines, List.mem_cons, List.not_mem_nil, or_false] at mem
  rcases mem with rfl | rfl | rfl
  · exact title
  · exact mark.append ((Text.OneLine.of_word (.decimal count)).append unit)
  · exact List.forall_mem_nil _

section Row
variable (byte : UInt8) (address : Nat)

theorem oneLine_row : Text.OneLine (row byte address) := by
  have between : Text.OneLine [' ', '#', ' '] := .of_all (by decide)
  exact ((Text.OneLine.of_word (.binary byte)).append between).append
    (.of_word (.padded (by decide) (by decide) 3 address))

theorem trim_row : Text.trim (row byte address) = row byte address :=
  ((Text.Word.binary byte).trimmed.join (Text.Word.padded (by decide) (by decide) 3 address).trimmed
    (Text.padded_ne_nil _ _ _) (Text.padded_ne_nil _ _ _) _).trim

theorem code_row : code (row byte address) = Text.binary byte ++ [' '] := by
  have plain : ∀ c ∈ Text.binary byte ++ [' '], (c == '#') = false := by
    intro c mem
    rcases List.mem_append.1 mem with digit | blank
    · refine beq_false_of_ne ?_
      rintro rfl
      exact (Text.Word.binary byte).not_mem rfl digit
    · rw [List.mem_singleton.1 blank]
      rfl
  have split : row byte address =
      Text.binary byte ++ [' '] ++ '#' :: ' ' :: Text.padded 10 3 address := by simp [row]
  rw [code, split, Text.before_append plain rfl]

theorem firstWord_code_row : Text.firstWord (code (row byte address)) = Text.binary byte := by
  have word := Text.Word.binary byte
  have first : (Text.binary byte ++ [' ']).head? = (Text.binary byte).head? := by
    obtain ⟨c, rest, digits⟩ := List.exists_cons_of_ne_nil (Text.padded_ne_nil 2 8 byte.toNat)
    rw [Text.binary, digits]
    rfl
  have stop : ∀ c ∈ [' '].head?, Text.isBlank c := by simp [Text.isBlank]
  rw [Text.firstWord, code_row, Text.trimStart_eq_self (first ▸ word.trimmed.first),
    Text.firstRun_append word.solid stop]

theorem ofLines_row (number : Nat) (rest : List (List Char)) :
    ofLines number (row byte address :: rest) = (ofLines (number + 1) rest).map fun image =>
      ⟨byte :: image.bytes, row byte address :: image.sourceLines⟩ := by
  have some : Text.firstWord (code (row byte address)) ≠ [] :=
    firstWord_code_row byte address ▸ Text.padded_ne_nil _ _ _
  rw [ofLines]
  split
  · next none => exact absurd none some
  · rw [firstWord_code_row, byte?_binary]
    simp only [trim_row]

end Row

theorem ofLines_of_blank {line : List Char} (blank : Text.firstWord (code line) = [])
    (number : Nat) (rest : List (List Char)) :
    ofLines number (line :: rest) = ofLines (number + 1) rest := by
  rw [ofLines, blank]

theorem ofLines_headLines (number count : Nat) (rest : List (List Char)) :
    ofLines number (headLines count ++ rest) = ofLines (number + 3) rest := by
  have title : Text.firstWord (code "# LS-8 program image".toList) = [] := by decide
  have size (t : List Char) : Text.firstWord (code ('#' :: t)) = [] := rfl
  rw [headLines, List.cons_append, List.cons_append, List.cons_append, List.nil_append,
    ofLines_of_blank title, ofLines_of_blank (size _), ofLines_of_blank rfl]

theorem ofLines_rows (number : Nat) (entries : List (UInt8 × Nat)) :
    ofLines number (entries.map fun (byte, address) => row byte address) =
      .ok ⟨entries.map Prod.fst, entries.map fun (byte, address) => row byte address⟩ := by
  induction entries generalizing number with
  | nil => rfl
  | cons entry entries ih =>
    rw [List.map_cons, ofLines_row, ih]
    rfl

theorem parse_write_eq (image : Image) :
    parse image.write = .ok ⟨image.bytes, rows image.bytes⟩ := by
  have one : ∀ line ∈ headLines image.bytes.length ++ rows image.bytes, Text.OneLine line := by
    intro line mem
    rcases List.mem_append.1 mem with head | body
    · exact oneLine_headLines _ line head
    · obtain ⟨entry, -, rfl⟩ := List.mem_map.1 body
      exact oneLine_row _ _
  have bytes : image.bytes.zipIdx.map Prod.fst = image.bytes := List.zipIdx_map_fst 0 _
  rw [parse, write_eq_unlines, Text.lines_unlines one, ofLines_headLines, rows, ofLines_rows, bytes]

/-- An image that is written reads back with the same bytes and a source line for each, whatever
its own source lines are, and writes the same text again. -/
theorem parse_write (image : Image) :
    ∃ parsed, parse image.write = .ok parsed ∧ parsed.bytes = image.bytes ∧
      parsed.sourceLines.length = image.bytes.length ∧ parsed.write = image.write :=
  ⟨_, image.parse_write_eq, rfl, by simp [rows], rfl⟩

end ByteMachine.Image
