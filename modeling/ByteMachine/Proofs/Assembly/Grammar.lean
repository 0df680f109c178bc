import ByteMachine.Proofs.Assembly.Layout
import ByteMachine.Proofs.Assembly.Meaning
import ByteMachine.Proofs.Assembly.Statement
import ByteMachine.Proofs.Text.Case

/-! The assembler reads a line exactly as its meaning is told: each function that reads a
part of it succeeds on the texts with a meaning and on no others, and comes to what
they mean. -/
namespace ByteMachine

namespace Except
variable {ε α β γ : Type}

theorem mapM_eq_ok_comp_iff {f : α → Except ε β} {related : β → γ → Prop} {xs : List α}
    {zs : List γ} :
    (∃ ys, xs.mapM f = .ok ys ∧ List.Forall₂ related ys zs) ↔
      List.Forall₂ (fun x z => ∃ y, f x = .ok y ∧ related y z) xs zs := by
  induction xs generalizing zs with
  | nil =>
    simp only [List.mapM_nil, pure_eq_ok_iff, exists_eq_left', List.forall₂_nil_left_iff]
  | cons x xs ih =>
    simp only [List.mapM_cons, bind_eq_ok_iff, pure_eq_ok_iff]
    constructor
    · rintro ⟨ys, ⟨y, head, more, tail, rfl⟩, both⟩
      obtain ⟨z, zs, first, rest, rfl⟩ := List.forall₂_cons_left_iff.1 both
      exact .cons ⟨y, head, first⟩ (ih.1 ⟨more, tail, rest⟩)
    · rintro (_ | ⟨⟨y, head, first⟩, rest⟩)
      obtain ⟨more, tail, rest⟩ := ih.2 rest
      exact ⟨y :: more, ⟨y, head, more, tail, rfl⟩, .cons first rest⟩

end Except

open Text

theorem Opcode.ofMnemonic?_uppercase {op : Opcode} {word : List Char} :
    ofMnemonic? (uppercase word) = some op ↔ uppercase word = op.mnemonic.toList := by
  have capital : op.mnemonic.toList.all (fun c => !c.isLower) := by cases op <;> decide
  have plain : ∀ c ∈ op.mnemonic.toList, c.isLower = false := fun c mem => by
    simpa using List.all_eq_true.1 capital c mem
  constructor
  · intro found
    have same : sameUpToCase op.mnemonic.toList (uppercase word) :=
      List.find?_some (p := fun op => sameUpToCase (mnemonic op).toList (uppercase word)) found
    exact ((sameUpToCase_iff plain fun c mem => isLower_of_mem_uppercase mem).1 same).symm
  · intro name
    rw [name, ofMnemonic?_mnemonic]

namespace Assembly
variable {t : List Char} {address : Addresses} {b : UInt8} {bytes : List UInt8}

/-! ### Operands -/

theorem startsNumber_cons {c : Char} : StartsNumber (c :: t) ↔ c = '-' ∨ isDigit 10 c := by
  simp [StartsNumber]

theorem startsNumber_zero (t : List Char) : StartsNumber ('0' :: t) :=
  startsNumber_cons.2 (.inr (by decide))

theorem startsNumber_asciiLowercase : StartsNumber (asciiLowercase t) ↔ StartsNumber t := by
  cases t with
  | nil => rfl
  | cons c t =>
    rw [asciiLowercase, List.map_cons, startsNumber_cons, startsNumber_cons, isDigit, isDigit,
      digitValue_toLower, toLower_eq_symbol rfl]

theorem Numeral.start {z : Int} (numeral : Numeral t z) : StartsNumber t := by
  cases numeral with
  | decimal start => exact start
  | hexadecimal | binary => exact startsNumber_zero _

theorem Literal.ofOption_ne_other (z? : Option Int) : Literal.ofOption z? ≠ .other := by
  cases z? <;> simp [ofOption]

theorem ofOption_eq_number_iff {base : Nat} (hex : base ≤ 16) {z : Int} :
    Literal.ofOption (readSigned? base (asciiLowercase t)) = .number z ↔
      Signed base t z ∧ fitsWord z := by
  rw [← signed_asciiLowercase, ← readSigned?_eq_some_iff hex]
  cases readSigned? base (asciiLowercase t) <;> simp [Literal.ofOption]

theorem asciiLowercase_eq_marked {small : Char} (lower : small.isLower) {rest : List Char} :
    asciiLowercase t = '0' :: small :: rest ↔ ∃ mark more, t = '0' :: mark :: more ∧
      (mark = small ∨ mark = small.toUpper) ∧ asciiLowercase more = rest := by
  rw [asciiLowercase_cons_symbol rfl]
  constructor
  · rintro ⟨tail, rfl, both⟩
    obtain ⟨mark, more, rfl, same, rfl⟩ := List.map_eq_cons_iff.1 both
    exact ⟨mark, more, rfl, (toLower_eq_small lower mark).1 same, rfl⟩
  · rintro ⟨mark, more, rfl, same, rfl⟩
    have letter := (toLower_eq_small lower mark).2 same
    exact ⟨_, rfl, List.map_eq_cons_iff.2 ⟨mark, more, rfl, letter, rfl⟩⟩

theorem numeral_marked_iff {mark : Char} (letter : ¬ isDigit 10 mark) {z : Int} :
    Numeral ('0' :: mark :: t) z ↔ (mark = 'x' ∨ mark = 'X') ∧ Signed 16 t z ∨
      (mark = 'b' ∨ mark = 'B') ∧ Signed 2 t z := by
  constructor
  · rintro (⟨-, ⟨⟨number⟩⟩⟩ | ⟨announced, number⟩ | ⟨announced, number⟩)
    · exact absurd (number.digits mark (List.mem_cons_of_mem _ List.mem_cons_self)) letter
    · exact .inl ⟨announced, number⟩
    · exact .inr ⟨announced, number⟩
  · rintro (⟨announced, number⟩ | ⟨announced, number⟩)
    · exact .hexadecimal announced number
    · exact .binary announced number

theorem Numeral.signed {z : Int} (numeral : Numeral t z)
    (noHexadecimal : ∀ rest, asciiLowercase t ≠ '0' :: 'x' :: rest)
    (noBinary : ∀ rest, asciiLowercase t ≠ '0' :: 'b' :: rest) : Signed 10 t z := by
  cases numeral with
  | decimal _ number => exact number
  | @hexadecimal mark digits _ announced =>
    have marked := (asciiLowercase_eq_marked rfl).2 ⟨mark, digits, rfl, announced, rfl⟩
    exact absurd marked (noHexadecimal _)
  | @binary mark digits _ announced =>
    have marked := (asciiLowercase_eq_marked rfl).2 ⟨mark, digits, rfl, announced, rfl⟩
    exact absurd marked (noBinary _)

theorem literal_eq_number_iff {z : Int} : literal t = .number z ↔ Numeral t z ∧ fitsWord z := by
  unfold literal
  split
  · next lower =>
    obtain ⟨mark, rest, rfl, announced, rfl⟩ := (asciiLowercase_eq_marked (by decide)).1 lower
    rw [ofOption_eq_number_iff (by decide)]
    rcases announced with rfl | rfl <;> simp [numeral_marked_iff, isDigit, digitValue]
  · next lower =>
    obtain ⟨mark, rest, rfl, announced, rfl⟩ := (asciiLowercase_eq_marked (by decide)).1 lower
    rw [ofOption_eq_number_iff (by decide)]
    rcases announced with rfl | rfl <;> simp [numeral_marked_iff, isDigit, digitValue]
  · next c rest noHexadecimal noBinary lower =>
    have start : (c = '-' ∨ isDigit 10 c) ↔ StartsNumber t := by
      rw [← startsNumber_asciiLowercase, lower, startsNumber_cons]
    have unmarked : ∀ {small}, (∀ digits, c = '0' → rest = small :: digits → False) →
        ∀ digits, asciiLowercase t ≠ '0' :: small :: digits := fun none digits same => by
      obtain ⟨zero, tail⟩ := List.cons.inj (lower.symm.trans same)
      exact none digits zero tail
    rw [← lower]
    split
    · next number =>
      rw [ofOption_eq_number_iff (by decide), and_congr_left_iff]
      exact fun _ => ⟨.decimal (start.1 number), fun numeral =>
        numeral.signed (unmarked noHexadecimal) (unmarked noBinary)⟩
    · next other =>
      exact iff_of_false Literal.noConfusion fun both => other (start.2 both.1.start)
  · next lower =>
    refine iff_of_false Literal.noConfusion fun both => ?_
    have start := startsNumber_asciiLowercase.2 both.1.start
    rw [lower] at start
    simp [StartsNumber] at start

theorem literal_eq_other_iff : literal t = .other ↔ ¬ StartsNumber t := by
  rw [← startsNumber_asciiLowercase]
  unfold literal
  split
  · next lower =>
    have start := lower ▸ startsNumber_zero _
    exact iff_of_false (Literal.ofOption_ne_other _) (not_not_intro start)
  · next lower =>
    have start := lower ▸ startsNumber_zero _
    exact iff_of_false (Literal.ofOption_ne_other _) (not_not_intro start)
  · next lower =>
    rw [lower, startsNumber_cons]
    split
    · next number => exact iff_of_false (Literal.ofOption_ne_other _) (not_not_intro number)
    · next other => exact iff_of_true rfl other
  · next lower =>
    rw [lower]
    simp [StartsNumber]

def Piece.Stands (address : Addresses) (b : UInt8) : Piece → Prop
  | .byte known => known = b
  | .address label => address label b.toNat

theorem value_eq_ok_iff {piece : Piece} :
    value t = .ok piece ↔ (∃ b : UInt8, Numeral t b.toNat ∧ piece = .byte b) ∨
      ¬ StartsNumber t ∧ piece = .address (uppercase t) := by
  constructor
  · intro read
    rw [value] at read
    split at read
    · next n found =>
      obtain ⟨numeral, -⟩ := literal_eq_number_iff.1 found
      split at read
      · next small =>
        have byte : ((UInt8.ofNat n.toNat).toNat : Int) = n := by
          rw [UInt8.toNat_ofNat']
          omega
        exact .inl ⟨_, by rwa [byte], (Except.ok.inj read).symm⟩
      · cases read
    · cases read
    · next found => exact .inr ⟨literal_eq_other_iff.1 found, (Except.ok.inj read).symm⟩
  · rintro (⟨b, numeral, rfl⟩ | ⟨other, rfl⟩)
    · exact value_of_literal (literal_eq_number_iff.2 ⟨numeral, fitsWord_byte b⟩)
    · rw [value, literal_eq_other_iff.2 other]

theorem valueOperand_iff :
    (∃ piece, value t = .ok piece ∧ piece.Stands address b) ↔ ValueOperand address t b := by
  constructor
  · rintro ⟨piece, read, stands⟩
    obtain ⟨known, numeral, rfl⟩ | ⟨other, rfl⟩ := value_eq_ok_iff.1 read
    · exact .number (stands ▸ numeral)
    · exact .label other stands
  · rintro (numeral | ⟨other, place⟩)
    · exact ⟨.byte b, value_eq_ok_iff.2 (.inl ⟨b, numeral, rfl⟩), rfl⟩
    · exact ⟨.address (uppercase t), value_eq_ok_iff.2 (.inr ⟨other, rfl⟩), place⟩

theorem register_eq_ok_iff {r : UInt8} : register t = .ok r ↔ RegisterOperand t r := by
  constructor
  · intro read
    simp only [register] at read
    split at read
    · next n found =>
      have marked : ∃ letter digits, t = letter :: digits ∧ (letter = 'R' ∨ letter = 'r') ∧
          readUnsigned? 10 digits = some n := by
        split at found
        · next digits => exact ⟨'R', digits, rfl, .inl rfl, found⟩
        · next digits => exact ⟨'r', digits, rfl, .inr rfl, found⟩
        · cases found
      obtain ⟨letter, digits, rfl, mark, number⟩ := marked
      split at read
      · next small =>
        have index : r.toNat = n := by
          rw [← Except.ok.inj read, UInt8.toNat_ofNat']
          omega
        rw [← index] at number small
        exact .intro mark ((readUnsigned?_eq_some_iff (by decide)).1 number) small
      · cases read
    · cases read
  · rintro ⟨mark, number, valid⟩
    have read := (readUnsigned?_eq_some_iff (by decide)).2 number
    rcases mark with rfl | rfl <;> simp only [register, read, if_pos valid, UInt8.ofNat_toNat]

theorem forall₂_padded_iff {parts operands : List (List Char)} :
    List.Forall₂ Padded parts operands ↔ parts.map trim = operands := by
  have same : Padded = fun part operand => trim part = operand :=
    funext fun part => funext fun operand => propext trim_eq_iff.symm
  rw [same, ← List.forall₂_map_left_iff (f := trim) (R := Eq), List.forall₂_eq_eq_eq]

theorem operandList_iff {operands : List (List Char)} :
    OperandList t operands ↔ Assembly.operands (trim t) = operands := by
  constructor
  · intro list
    cases list with
    | none blank => rw [trim_eq_iff.2 blank, Assembly.operands, if_pos rfl]
    | @some inner parts _ trimmed nonempty joined whole each =>
      have some : parts ≠ [] := by
        rintro rfl
        exact nonempty joined.symm
      rw [trim_eq_iff.2 trimmed, Assembly.operands, if_neg nonempty,
        fields_eq_iff.2 ⟨some, whole, joined⟩, forall₂_padded_iff.1 each]
  · rintro rfl
    rw [Assembly.operands]
    split
    · next blank => exact .none (blank ▸ padded_trim t)
    · next nonempty =>
      obtain ⟨-, whole, joined⟩ := fields_eq_iff.1 (rfl : fields ',' (trim t) = _)
      exact .some (padded_trim t) nonempty joined whole (forall₂_padded_iff.2 rfl)

theorem phrase_iff {body word : List Char} {operands : List (List Char)} :
    Phrase body word operands ↔
      firstRun body = word ∧ Assembly.operands (trim (afterRun body)) = operands := by
  constructor
  · rintro ⟨solid, apart, list⟩
    rw [firstRun_append solid apart, afterRun_append solid apart]
    exact ⟨rfl, operandList_iff.1 list⟩
  · rintro ⟨rfl, list⟩
    have apart : ∀ c ∈ (afterRun body).head?, isBlank c := fun c mem => by
      simpa using of_mem_head?_dropWhile mem
    have phrase := Phrase.intro (fun c => isBlank_of_mem_firstRun (t := body)) apart
      (operandList_iff.2 list)
    rwa [firstRun_append_afterRun] at phrase


/-! ### Statements -/

theorem isDataDirective_iff {mnemonic : List Char} :
    isDataDirective mnemonic ↔ mnemonic = "DB".toList ∨ mnemonic = "DATA".toList := by
  rw [isDataDirective, Bool.or_eq_true, beq_iff_eq, beq_iff_eq]

theorem mapM_value_iff {operands : List (List Char)} :
    (∃ pieces, operands.mapM value = .ok pieces ∧
      List.Forall₂ (fun piece b => piece.Stands address b) pieces bytes) ↔
        List.Forall₂ (ValueOperand address) operands bytes := by
  simp only [Except.mapM_eq_ok_comp_iff, valueOperand_iff]

theorem mapM_register_iff {operands : List (List Char)} :
    (∃ pieces, (operands.mapM fun operand => (register operand).map Piece.byte) = .ok pieces ∧
      List.Forall₂ (fun piece b => piece.Stands address b) pieces bytes) ↔
        List.Forall₂ RegisterOperand operands bytes := by
  have each : ∀ (t : List Char) (r : UInt8), (∃ piece, (register t).map Piece.byte = .ok piece ∧
      piece.Stands address r) ↔ RegisterOperand t r := fun t r => by
    simp only [Except.map_eq_ok_iff, register_eq_ok_iff]
    constructor
    · rintro ⟨_, ⟨known, operand, rfl⟩, stands⟩
      exact stands ▸ operand
    · exact fun operand => ⟨.byte r, ⟨r, operand, rfl⟩, rfl⟩
  simp only [Except.mapM_eq_ok_comp_iff, each]

theorem arguments_ldi_iff {target source : List Char} :
    (∃ pieces, arguments .ldi [target, source] = .ok pieces ∧
      List.Forall₂ (fun piece b => piece.Stands address b) pieces bytes) ↔
        ∃ r b, RegisterOperand target r ∧ ValueOperand address source b ∧ bytes = [r, b] := by
  simp only [arguments, Except.bind_eq_ok_iff, Except.pure_eq_ok_iff, register_eq_ok_iff]
  constructor
  · rintro ⟨_, ⟨r, register, piece, read, rfl⟩, _ | ⟨rfl, _ | ⟨stands, _ | _⟩⟩⟩
    exact ⟨r, _, register, valueOperand_iff.1 ⟨piece, read, stands⟩, rfl⟩
  · rintro ⟨r, b, register, value, rfl⟩
    obtain ⟨piece, read, stands⟩ := valueOperand_iff.2 value
    exact ⟨_, ⟨r, register, piece, read, rfl⟩, .cons rfl (.cons stands .nil)⟩

variable {body word : List Char} {operands : List (List Char)}

theorem Phrase.ne_nil (phrase : Phrase body word operands) (named : uppercase word ≠ []) :
    body ≠ [] := by
  obtain ⟨rfl, -⟩ := phrase_iff.1 phrase
  rintro rfl
  exact named rfl

theorem statement_of_directive (phrase : Phrase body word operands)
    (name : uppercase word = "DB".toList ∨ uppercase word = "DATA".toList)
    (filled : operands ≠ []) : statement body = operands.mapM value := by
  have named : uppercase word ≠ [] := by rcases name with same | same <;> rw [same] <;> decide
  have nonempty := phrase.ne_nil named
  obtain ⟨rfl, rfl⟩ := phrase_iff.1 phrase
  simp only [statement, if_neg nonempty, if_pos (isDataDirective_iff.2 name), if_neg filled]

theorem statement_of_opcode {op : Opcode} (phrase : Phrase body word operands)
    (name : uppercase word = op.mnemonic.toList) (count : operands.length = op.operands) :
    statement body = (arguments op operands).map (.byte op.byte :: ·) := by
  have noData : isDataDirective op.mnemonic.toList = false := by cases op <;> decide
  have nonempty := phrase.ne_nil (name ▸ op.mnemonic_ne_nil)
  obtain ⟨rfl, rfl⟩ := phrase_iff.1 phrase
  simp only [statement, if_neg nonempty, name, noData, op.ofMnemonic?_mnemonic, if_pos count,
    Bool.false_eq_true, if_false]

theorem denotes_of_arguments {op : Opcode} (phrase : Phrase body word operands)
    (name : uppercase word = op.mnemonic.toList) (count : operands.length = op.operands) :
    (∃ pieces, arguments op operands = .ok pieces ∧
      List.Forall₂ (fun piece b => piece.Stands address b) pieces bytes) →
        Denotes address body (op.byte :: bytes) := by
  by_cases load : op = .ldi
  · subst load
    obtain ⟨target, source, rfl⟩ := List.length_eq_two.1 count
    intro read
    obtain ⟨r, b, register, value, rfl⟩ := arguments_ldi_iff.1 read
    exact .load phrase name register value
  · rw [arguments_of_ne_ldi load]
    intro read
    exact .instruction load phrase name count (mapM_register_iff.1 read)

theorem denotes_iff :
    (∃ pieces, statement body = .ok pieces ∧
      List.Forall₂ (fun piece b => piece.Stands address b) pieces bytes) ↔
        Denotes address body bytes := by
  constructor
  · rintro ⟨pieces, read, both⟩
    by_cases filled : body = []
    · rw [statement, if_pos filled] at read
      cases read
      cases both
      exact filled ▸ .blank
    · have phrase : Phrase body _ _ := phrase_iff.2 ⟨rfl, rfl⟩
      simp only [statement, if_neg filled] at read
      split at read
      · next data =>
        split at read
        · cases read
        · next some =>
          have values := mapM_value_iff.1 ⟨pieces, read, both⟩
          exact .data phrase (isDataDirective_iff.1 data) some values
      · split at read
        · cases read
        · next op found =>
          have name := Opcode.ofMnemonic?_uppercase.1 found
          split at read
          · next count =>
            obtain ⟨rest, arguments, rfl⟩ := Except.map_eq_ok_iff.1 read
            obtain ⟨_, bytes, rfl, operands, rfl⟩ := List.forall₂_cons_left_iff.1 both
            exact denotes_of_arguments phrase name count ⟨rest, arguments, operands⟩
          · cases read
  · intro denotes
    cases denotes with
    | blank => exact ⟨[], rfl, .nil⟩
    | data phrase name filled values =>
      rw [statement_of_directive phrase name filled]
      exact mapM_value_iff.2 values
    | load phrase name register value =>
      obtain ⟨pieces, read, both⟩ := arguments_ldi_iff.2 ⟨_, _, register, value, rfl⟩
      have count : Opcode.ldi.operands = 2 := by decide
      rw [statement_of_opcode phrase name count.symm]
      exact ⟨_, Except.map_eq_ok_iff.2 ⟨pieces, read, rfl⟩, .cons rfl both⟩
    | instruction other phrase name count each =>
      obtain ⟨pieces, read, both⟩ := mapM_register_iff.2 each
      rw [statement_of_opcode phrase name count, arguments_of_ne_ldi other]
      exact ⟨_, Except.map_eq_ok_iff.2 ⟨pieces, read, rfl⟩, .cons rfl both⟩

/-! ### Lines -/


theorem uncommented_iff {kept : List Char} : Uncommented t kept ↔ code t = kept := by
  rw [code, before_eq_iff]
  constructor
  · rintro ⟨plain, mark⟩
    exact ⟨fun c mem => by simpa using plain c mem, _, fun c mem => by simpa using mark c mem, rfl⟩
  · rintro ⟨plain, rest, mark, rfl⟩
    exact .intro (fun c mem => by simpa using plain c mem) fun c mem => by simpa using mark c mem

theorem labelName_eq_ok_iff {name : List Char} :
    labelName t = .ok name ↔ ∃ inner, Padded t inner ∧ uppercase inner ≠ [] ∧
      (∀ c ∈ uppercase inner, isBlank c = false) ∧ uppercase inner = name := by
  have solid : ∀ s : List Char, s.any isBlank = false ↔ ∀ c ∈ s, isBlank c = false := by simp
  rw [labelName]
  constructor
  · intro read
    split at read
    · cases read
    · next valid =>
      rw [not_or, Bool.not_eq_true, solid] at valid
      exact ⟨trim t, padded_trim t, valid.1, valid.2, Except.ok.inj read⟩
  · rintro ⟨inner, label, nonempty, word, rfl⟩
    have valid : ¬ (uppercase inner = [] ∨ (uppercase inner).any isBlank) := by
      rw [not_or, Bool.not_eq_true, solid]
      exact ⟨nonempty, word⟩
    simp only [trim_eq_iff.2 label, if_neg valid]

abbrev Names : Option (List Char) → Option (List Char) → Prop :=
  Option.Rel fun text name => labelName text = .ok name

theorem spells_iff {line : SourceLine} :
    Spells t line ↔ Names (Line.ofText t).label line.label ∧ (Line.ofText t).body = line.body := by
  constructor
  · intro spells
    cases spells with
    | plain cut trimmed single =>
      have text := trim_eq_iff.2 trimmed
      rw [← uncommented_iff.1 cut] at text
      rw [Line.ofText_of_single (text ▸ single), text]
      exact ⟨.none, rfl⟩
    | labelled cut trimmed first label nonempty solid statement =>
      have text := trim_eq_iff.2 trimmed
      rw [← uncommented_iff.1 cut] at text
      rw [Line.ofText_of_colon text first]
      have named := labelName_eq_ok_iff.2 ⟨_, label, nonempty, solid, rfl⟩
      exact ⟨.some named, trim_eq_iff.2 statement⟩
  · obtain ⟨label, body⟩ := line
    have cut : Uncommented t (code t) := uncommented_iff.2 rfl
    rintro ⟨names, same⟩
    by_cases colon : ':' ∈ trim (code t)
    · obtain ⟨front, after, text, first⟩ := List.eq_append_cons_of_mem colon
      rw [Line.ofText_of_colon text first] at names same
      obtain ⟨read⟩ := names
      obtain ⟨name, label, nonempty, solid, rfl⟩ := labelName_eq_ok_iff.1 read
      exact .labelled cut (trim_eq_iff.1 text) first label nonempty solid (trim_eq_iff.1 same)
    · rw [Line.ofText_of_single colon] at names same
      subst same
      cases names
      exact .plain cut (padded_trim _) colon

theorem spells_of_none (text : (Line.ofText t).label = none) :
    Spells t ⟨none, (Line.ofText t).body⟩ := by
  rw [spells_iff, text]
  exact ⟨.none, rfl⟩

theorem spells_of_some {front label : List Char} (text : (Line.ofText t).label = some front)
    (name : labelName front = .ok label) : Spells t ⟨some label, (Line.ofText t).body⟩ := by
  rw [spells_iff, text]
  exact ⟨.some name, rfl⟩

def SourceLine.define (line : SourceLine) (labels : Labels) (offset : Nat) : Labels :=
  match line.label with
  | none => labels
  | some label => (label, offset) :: labels

variable {labels after : Labels} {offset : Nat}

theorem define_of_spells {line : SourceLine} (spells : Spells t line)
    (free : ∀ label ∈ line.label, labels.lookup label = none) :
    Assembly.define labels offset (Line.ofText t).label = .ok (line.define labels offset) := by
  obtain ⟨label, body⟩ := line
  obtain ⟨names, -⟩ := spells_iff.1 spells
  generalize (Line.ofText t).label = text at names
  cases names with
  | none => rfl
  | some name => exact define_eq_ok_iff.2 ⟨_, name, free _ rfl, rfl⟩

theorem readLine_iff {pieces : List Piece} :
    readLine labels offset t = .ok (after, pieces) ↔ ∃ line : SourceLine, Spells t line ∧
      (∀ label ∈ line.label, labels.lookup label = none) ∧ line.define labels offset = after ∧
        statement line.body = .ok pieces := by
  rw [readLine_eq_ok_iff]
  constructor
  · rintro ⟨defined, read⟩
    cases text : (Line.ofText t).label with
    | none =>
      rw [text] at defined
      exact ⟨_, spells_of_none text, nofun, Except.ok.inj defined, read⟩
    | some front =>
      rw [text] at defined
      obtain ⟨label, name, free, rfl⟩ := define_eq_ok_iff.1 defined
      refine ⟨_, spells_of_some text name, ?_, rfl, read⟩
      rintro _ ⟨⟩
      exact free
  · rintro ⟨line, spells, free, rfl, read⟩
    exact ⟨define_of_spells spells free, (spells_iff.1 spells).2 ▸ read⟩

end Assembly
end ByteMachine
