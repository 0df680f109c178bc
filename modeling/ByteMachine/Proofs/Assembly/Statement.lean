import ByteMachine.Assembly.Statement
import ByteMachine.Instruction
import ByteMachine.Proofs.Text.Line
import ByteMachine.Proofs.Text.Numeral

/-! Statements whose parts are known: a mnemonic makes an instruction, a value that
fits a byte is read as that byte, and a register by its number. -/
namespace ByteMachine

namespace Opcode
open Text

theorem word_mnemonic (op : Opcode) : Word op.mnemonic.toList :=
  List.all_eq_true.1 (by cases op <;> decide)

theorem mnemonic_ne_nil (op : Opcode) : op.mnemonic.toList ≠ [] := by cases op <;> decide

theorem uppercase_mnemonic (op : Opcode) : uppercase op.mnemonic.toList = op.mnemonic.toList := by
  cases op <;> decide

theorem ofMnemonic?_mnemonic (op : Opcode) : ofMnemonic? op.mnemonic.toList = some op := by
  cases op <;> decide

end Opcode

namespace Instruction

theorem word_registerSource (b : UInt8) : Text.Word (registerSource b) :=
  (Text.Word.decimal _).cons rfl

end Instruction

namespace Assembly
open Text

variable {t : List Char}

theorem asciiLowercase_of_digits (digits : ∀ c ∈ t, isDigit 10 c) : asciiLowercase t = t := by
  have same : ∀ c ∈ t, c.toLower = id c := fun c mem =>
    forall_isDigit (p := fun c => c.toLower = id c) (by decide) (digits c mem)
  rw [asciiLowercase, List.map_congr_left same, List.map_id]

theorem literal_of_digits (some : t ≠ []) (digits : ∀ c ∈ t, isDigit 10 c) :
    literal t = .ofOption (readSigned? 10 t) := by
  -- A digit in second place is neither of the letters that announce another base.
  have second : ∀ c rest, t = '0' :: c :: rest → c ≠ 'x' ∧ c ≠ 'b' := by
    rintro c rest rfl
    have digit := digits c (List.mem_cons_of_mem _ List.mem_cons_self)
    exact forall_isDigit (p := fun c => c ≠ 'x' ∧ c ≠ 'b') (by decide) digit
  rw [literal, asciiLowercase_of_digits digits]
  split
  · exact absurd rfl (second _ _ rfl).1
  · exact absurd rfl (second _ _ rfl).2
  · rw [if_pos (.inr (digits _ List.mem_cons_self))]
  · exact absurd rfl some

theorem value_of_literal {b : UInt8} (read : literal t = .number b.toNat) :
    value t = .ok (.byte b) := by
  have fits := b.toNat_lt
  rw [value, read]
  simp only [Int.toNat_natCast, UInt8.ofNat_toNat]
  rw [if_pos (by omega)]

theorem value_decimal (b : UInt8) : value (decimal b.toNat) = .ok (.byte b) := by
  have digits : ∀ c ∈ padded 10 0 b.toNat, isDigit 10 c :=
    isDigit_of_mem_padded (by decide) (by decide) 0 b.toNat
  have read : readSigned? 10 (padded 10 0 b.toNat) = some (b.toNat : Int) :=
    readSigned?_padded (by decide) (by decide) 0 (fitsWord_byte b)
  apply value_of_literal
  rw [decimal_eq_padded, literal_of_digits (padded_ne_nil 10 0 _) digits, read, Literal.ofOption]

theorem value_binary (b : UInt8) : value ('0' :: 'b' :: binary b) = .ok (.byte b) := by
  have bits : ∀ c ∈ padded 2 8 b.toNat, isDigit 2 c :=
    isDigit_of_mem_padded (by decide) (by decide) 8 b.toNat
  have digits : ∀ c ∈ binary b, isDigit 10 c := fun c mem => isDigit_mono (by decide) (bits c mem)
  have read : readSigned? 2 (padded 2 8 b.toNat) = some (b.toNat : Int) :=
    readSigned?_padded (by decide) (by decide) 8 (fitsWord_byte b)
  have lower : asciiLowercase ('0' :: 'b' :: binary b) = '0' :: 'b' :: binary b := by
    change '0' :: 'b' :: asciiLowercase (binary b) = _
    rw [asciiLowercase_of_digits digits]
  apply value_of_literal
  rw [literal, lower]
  change Literal.ofOption (readSigned? 2 (binary b)) = _
  rw [binary, read, Literal.ofOption]

theorem register_registerSource (b : UInt8) :
    register (Instruction.registerSource b) =
      if b.toNat < 8 then .ok b else .error (.badRegister (Instruction.registerSource b)) := by
  have read : readUnsigned? 10 (decimal b.toNat) = some b.toNat := by
    rw [decimal_eq_padded, readUnsigned?_padded (by decide) (by decide)]
  simp only [register, Instruction.registerSource, read, UInt8.ofNat_toNat]

def checkRegisters : List UInt8 → Except Cause Unit
  | [] => .ok ()
  | index :: rest =>
    if index.toNat < 8 then checkRegisters rest
    else .error (.badRegister (Instruction.registerSource index))

theorem checkRegisters_eq_ok_iff {indices : List UInt8} :
    checkRegisters indices = .ok () ↔ ∀ index ∈ indices, index.toNat < 8 := by
  induction indices with
  | nil => simp [checkRegisters]
  | cons index rest ih =>
    rw [checkRegisters, List.forall_mem_cons]
    by_cases valid : index.toNat < 8
    · rw [if_pos valid, ih]
      exact (and_iff_right valid).symm
    · rw [if_neg valid]
      exact iff_of_false (fun h => nomatch h) fun both => valid both.1

theorem mapM_register (indices : List UInt8) :
    (indices.map Instruction.registerSource).mapM
        (fun operand => (register operand).map Piece.byte) =
      (checkRegisters indices).map fun _ => indices.map .byte := by
  induction indices with
  | nil => rfl
  | cons index rest ih =>
    rw [List.map_cons, List.mapM_cons, ih, register_registerSource, checkRegisters]
    by_cases valid : index.toNat < 8
    · rw [if_pos valid, if_pos valid]
      cases checkRegisters rest <;> rfl
    · rw [if_neg valid, if_neg valid]
      rfl

theorem operands_of_single (trimmed : Trimmed t) (filled : t ≠ []) (whole : ',' ∉ t) :
    operands t = [t] := by
  rw [operands, if_neg filled, fields_of_not_mem whole, List.map_singleton, trimmed.trim]

theorem operands_of_word {word : List Char} (solid : Word word) (filled : word ≠ []) :
    operands word = [word] := operands_of_single solid.trimmed filled (solid.not_mem rfl)

theorem trim_lead {t : List Char} (trimmed : Trimmed t) : trim (' ' :: t) = t := by
  have blank : ∀ c ∈ [' '], isBlank c := List.forall_mem_singleton.2 rfl
  simpa using trimmed.trim_surround blank (List.forall_mem_nil _)

theorem operands_of_pair {first second : List Char} (left : Trimmed first) (right : Trimmed second)
    (whole : ',' ∉ first) (alone : ',' ∉ second) :
    operands (first ++ ',' :: ' ' :: second) = [first, second] := by
  have rest : ',' ∉ ' ' :: second := fun mem => (List.mem_cons.1 mem).elim (by decide) alone
  rw [operands, if_neg (by simp), fields_append whole, fields_of_not_mem rest, List.map_cons,
    List.map_singleton, left.trim, trim_lead right]

theorem operands_of_words {first second : List Char} (left : Word first) (right : Word second) :
    operands (first ++ ',' :: ' ' :: second) = [first, second] :=
  operands_of_pair left.trimmed right.trimmed (left.not_mem rfl) (right.not_mem rfl)

theorem statement_mnemonic (op : Opcode) {rest : List Char}
    (apart : ∀ c ∈ rest.head?, isBlank c) :
    statement (op.mnemonic.toList ++ rest) =
      if (operands (trim rest)).length = op.operands then
        (arguments op (operands (trim rest))).map (.byte op.byte :: ·)
      else .error (.operandCount op (operands (trim rest)).length) := by
  have filled : op.mnemonic.toList ++ rest ≠ [] :=
    List.append_ne_nil_of_left_ne_nil op.mnemonic_ne_nil rest
  have noData : isDataDirective op.mnemonic.toList = false := by cases op <;> decide
  simp only [statement, if_neg filled, firstRun_append op.word_mnemonic.solid apart,
    afterRun_append op.word_mnemonic.solid apart, op.uppercase_mnemonic, noData,
    op.ofMnemonic?_mnemonic, Bool.false_eq_true, if_false]

theorem statement_directive {directive rest : List Char} (word : Word directive)
    (data : isDataDirective (uppercase directive)) (apart : ∀ c ∈ rest.head?, isBlank c) :
    statement (directive ++ rest) =
      if operands (trim rest) = [] then .error .missingValue
      else (operands (trim rest)).mapM value := by
  have filled : directive ≠ [] := by
    rintro rfl
    exact absurd data (by decide)
  simp only [statement, if_neg (List.append_ne_nil_of_left_ne_nil filled rest),
    firstRun_append word.solid apart, afterRun_append word.solid apart, data, if_true]

theorem arguments_ldi (a b : UInt8) :
    arguments .ldi [Instruction.registerSource a, decimal b.toNat] =
      (checkRegisters [a]).map fun _ => [.byte a, .byte b] := by
  simp only [arguments, register_registerSource, value_decimal, checkRegisters]
  split <;> rfl

theorem arguments_of_ne_ldi {op : Opcode} (other : op ≠ .ldi) (registers : List (List Char)) :
    arguments op registers = registers.mapM fun operand => (register operand).map .byte := by
  cases op <;> first | rfl | exact absurd rfl other

theorem code_append (plain : ∀ c ∈ t, c ≠ ';' ∧ c ≠ '#') (comment : List Char) :
    code (t ++ ';' :: comment) = t := by
  have kept : ∀ c ∈ t, (c == ';' || c == '#') = false := fun c mem => by
    simpa using plain c mem
  exact before_append kept rfl comment

theorem ne_of_isBlank {c : Char} (blank : isBlank c) : c ≠ ';' ∧ c ≠ '#' := by
  constructor <;> rintro rfl <;> exact absurd blank (by decide)

namespace Line
variable {body blanks : List Char}

theorem ofText_of_single (single : ':' ∉ trim (code t)) : ofText t = ⟨none, trim (code t)⟩ := by
  simp only [ofText, if_neg single]

theorem ofText_of_colon {front after : List Char}
    (text : trim (code t) = front ++ ':' :: after) (first : ':' ∉ front) :
    ofText t = ⟨some front, trim after⟩ := by
  have passed : ∀ c ∈ front, c ≠ ':' := fun c mem same => first (same ▸ mem)
  have colon : ':' ∈ front ++ ':' :: after := by simp
  have label : before (· == ':') (front ++ ':' :: after) = front :=
    before_append (fun c mem => by simpa using passed c mem) rfl after
  have rest : (front ++ ':' :: after).dropWhile (· != ':') = ':' :: after := by
    rw [List.dropWhile_append_of_pos (fun c mem => by simpa using passed c mem),
      List.dropWhile_cons_of_neg (by decide)]
  simp only [ofText, text, if_pos colon, label, rest, List.drop_succ_cons, List.drop_zero]

theorem ofText_statement (trimmed : Trimmed body) (plain : ∀ c ∈ body, c ≠ ';' ∧ c ≠ '#')
    (single : ':' ∉ body) (blank : ∀ c ∈ blanks, isBlank c) (comment : List Char) :
    ofText (body ++ blanks ++ ';' :: comment) = ⟨none, body⟩ := by
  have cut : ∀ c ∈ body ++ blanks, c ≠ ';' ∧ c ≠ '#' := fun c mem =>
    (List.mem_append.1 mem).elim (plain c) fun mem => ne_of_isBlank (blank c mem)
  have text : trim (code (body ++ blanks ++ ';' :: comment)) = body := by
    rw [code_append cut]
    simpa using trimmed.trim_surround (List.forall_mem_nil _) blank
  rw [ofText_of_single (by rwa [text]), text]

theorem ofText_label {label : List Char} (word : Word label) (some : label ≠ [])
    (trimmed : Trimmed body) (more : body ≠ []) (plain : ∀ c ∈ body, c ≠ ';' ∧ c ≠ '#')
    (blank : ∀ c ∈ blanks, isBlank c) (comment : List Char) :
    ofText (label ++ ':' :: ' ' :: body ++ blanks ++ ';' :: comment) = ⟨.some label, body⟩ := by
  have joined : label ++ [':', ' '] ++ body = label ++ ':' :: ' ' :: body := by simp
  have whole : Trimmed (label ++ ':' :: ' ' :: body) :=
    joined ▸ word.trimmed.join trimmed some more [':', ' ']
  have cut : ∀ c ∈ label ++ ':' :: ' ' :: body ++ blanks, c ≠ ';' ∧ c ≠ '#' := by
    intro c mem
    simp only [List.mem_append, List.mem_cons] at mem
    rcases mem with (mem | rfl | rfl | mem) | mem
    · exact ⟨fun same => word.not_mem rfl (same ▸ mem), fun same => word.not_mem rfl (same ▸ mem)⟩
    · decide
    · decide
    · exact plain c mem
    · exact ne_of_isBlank (blank c mem)
  have text : trim (code (label ++ ':' :: ' ' :: body ++ blanks ++ ';' :: comment)) =
      label ++ ':' :: ' ' :: body := by
    rw [code_append cut]
    simpa using whole.trim_surround (List.forall_mem_nil _) blank
  rw [ofText_of_colon text (word.not_mem rfl), trim_lead trimmed]

end Line

theorem uppercase_of_digits (digits : ∀ c ∈ t, isDigit 10 c) : uppercase t = t := by
  have same : ∀ c ∈ t, upperChar c = [c] := fun c mem =>
    forall_isDigit (p := fun c => upperChar c = [c]) (by decide) (digits c mem)
  rw [uppercase, List.flatMap_def, List.map_congr_left same, ← List.flatMap_def,
    List.flatMap_singleton']

theorem labelName_of_digits (some : t ≠ []) (digits : ∀ c ∈ t, isDigit 10 c) :
    labelName t = .ok t := by
  have word := Word.of_digits digits
  have solid : t.any isBlank = false := by simpa using word.solid
  have named : ¬ (t = [] ∨ t.any isBlank) := by simp [some, solid]
  simp only [labelName, word.trim_eq, uppercase_of_digits digits, if_neg named]

end Assembly

end ByteMachine
