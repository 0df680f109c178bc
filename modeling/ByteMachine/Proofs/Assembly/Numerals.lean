import ByteMachine.Proofs.Assembly.OneStatement
import Mathlib.Algebra.Group.Int.Defs

/-! Numbers where a value is wanted. Whatever the system that a number is written in, however many
zeros it starts with and whatever the case of its letters: it is assembled if it is a byte, out of
range if it is not but fits 64 bits, and no number at all beyond these. -/
namespace ByteMachine.Assembly
open Text
variable {base : Nat} {t : List Char} {z : Int}

/-- The numbers as one writes them. Only a decimal one has a sign, and only a minus. -/
inductive PlainNumeral : List Char → Int → Prop
  | decimal {t : List Char} {n : Nat} (digits : Written 10 n t) : PlainNumeral t n
  | negative {t : List Char} {n : Nat} (digits : Written 10 n t) : PlainNumeral ('-' :: t) (-n)
  | hexadecimal {x : Char} {t : List Char} {n : Nat} (mark : x = 'x' ∨ x = 'X')
      (digits : Written 16 n t) : PlainNumeral ('0' :: x :: t) n
  | binary {b : Char} {t : List Char} {n : Nat} (mark : b = 'b' ∨ b = 'B')
      (digits : Written 2 n t) : PlainNumeral ('0' :: b :: t) n

inductive TakesValue (t : List Char) : List UInt8 → String → Prop
  | data : TakesValue t [] ("DB " ++ String.ofList t)
  | load {target : List Char} {r : UInt8} (register : RegisterOperand target r) :
      TakesValue t [Opcode.ldi.byte, r]
        ("LDI " ++ String.ofList target ++ ", " ++ String.ofList t)

/-! ### Values -/

theorem fitsWord_iff : fitsWord z ↔ -2 ^ 63 ≤ z ∧ z < 2 ^ 63 := by
  have least : Int64.minValue.toInt = -2 ^ 63 := rfl
  have greatest : Int64.maxValue.toInt = 2 ^ 63 - 1 := rfl
  rw [fitsWord, least, greatest, Bool.and_eq_true, decide_eq_true_eq, decide_eq_true_eq]
  omega

theorem readSigned?_of_number (hex : base ≤ 16) {n : Nat} (number : Digits base t n) :
    readSigned? base t = (some (n : Int)).filter fitsWord := by
  rw [readSigned?_of_digits hex number.digits, readNat?_eq_some_iff.2 number]
  rfl

theorem readSigned?_minus {n : Nat} (number : Digits base t n) :
    readSigned? base ('-' :: t) = (some (-(n : Int))).filter fitsWord := by
  simp only [readSigned?, readNat?_eq_some_iff.2 number]
  rfl

theorem token_of_marked {mark : Char} (letter : mark.isAlphanum) (hex : base ≤ 16) {n : Nat}
    (number : Digits base t n) : Token ('0' :: mark :: t) :=
  .of_word (((number.word hex).cons letter).cons rfl) (List.cons_ne_nil _ _)

theorem PlainNumeral.token (numeral : PlainNumeral t z) : Token t := by
  cases numeral with
  | decimal written =>
    have number := written.digits (by decide) (by decide)
    exact .of_word (number.word (by decide)) number.nonempty
  | negative written =>
    have number := written.digits (by decide) (by decide)
    exact .cons (.inr (.inr rfl)) (number.word (by decide))
  | hexadecimal mark written =>
    refine token_of_marked ?_ (by decide) (written.digits (by decide) (by decide))
    obtain rfl | rfl := mark <;> rfl
  | binary mark written =>
    refine token_of_marked ?_ (by decide) (written.digits (by decide) (by decide))
    obtain rfl | rfl := mark <;> rfl

theorem PlainNumeral.literal_eq (numeral : PlainNumeral t z) :
    literal t = .ofOption ((some z).filter fitsWord) := by
  cases numeral with
  | decimal digits =>
    have number := digits.digits (by decide) (by decide)
    rw [literal_of_digits number.nonempty number.digits, readSigned?_of_number (by decide) number]
  | @negative digits _ written =>
    have number := written.digits (by decide) (by decide)
    have lower : asciiLowercase ('-' :: digits) = '-' :: digits :=
      congrArg ('-' :: ·) (asciiLowercase_of_digits number.digits)
    rw [literal, lower, ← readSigned?_minus number]
    rfl
  | @hexadecimal mark digits _ announced written =>
    have number := digits_asciiLowercase.2 (written.digits (by decide) (by decide))
    rw [literal, (asciiLowercase_eq_marked (by decide)).2 ⟨mark, digits, rfl, announced, rfl⟩,
      ← readSigned?_of_number (by decide) number]
    rfl
  | @binary mark digits _ announced written =>
    have number := digits_asciiLowercase.2 (written.digits (by decide) (by decide))
    rw [literal, (asciiLowercase_eq_marked (by decide)).2 ⟨mark, digits, rfl, announced, rfl⟩,
      ← readSigned?_of_number (by decide) number]
    rfl

theorem PlainNumeral.value_eq (numeral : PlainNumeral t z) : value t =
    if ¬ fitsWord z then .error (.badNumber t)
    else if 0 ≤ z ∧ z ≤ 255 then .ok (.byte (UInt8.ofNat z.toNat))
    else .error (.outOfRange z) := by
  rw [value, numeral.literal_eq]
  by_cases fits : fitsWord z
  · rw [Option.filter_some_pos fits, if_neg (not_not_intro fits)]
    rfl
  · rw [Option.filter_some_neg (Bool.eq_false_iff.2 fits), if_pos fits]
    rfl

/-! ### Statements -/

theorem assemble_of_oneStatement {source : String} (single : OneStatement source.toList) :
    assemble source = ((statement source.toList).mapError (Error.mk 1)) >>= fun pieces =>
      (pieces.map (1, ·)).mapM (resolve []) := by
  rw [assemble, assembleText_eq_layout, single.lines_eq, single.layout_eq]
  cases statement source.toList <;> rfl

namespace TakesValue
variable {front : List UInt8} {source : String}

theorem oneStatement (takes : TakesValue t front source) (token : Token t) :
    OneStatement source.toList := by
  cases takes with
  | data =>
    have text : ("DB " ++ String.ofList t).toList = "DB".toList ++ ' ' :: t := by simp
    rw [text]
    exact token.oneStatement.behind (List.all_eq_true.1 rfl) (by decide)
  | @load target _ register =>
    have text : ("LDI " ++ String.ofList target ++ ", " ++ String.ofList t).toList =
        "LDI".toList ++ ' ' :: (target ++ [',', ' '] ++ t) := by simp
    have pair : OneStatement (target ++ [',', ' '] ++ t) :=
      register.token.oneStatement.join token.oneStatement _ rfl
    rw [text]
    exact pair.behind (List.all_eq_true.1 rfl) (by decide)

theorem statement_eq (takes : TakesValue t front source) (token : Token t) :
    statement source.toList = (value t).map fun piece => front.map .byte ++ [piece] := by
  cases takes with
  | data =>
    have text : ("DB " ++ String.ofList t).toList = "DB".toList ++ ' ' :: t := by simp
    have phrase := phrase_of_word (s := "DB".toList) (List.all_eq_true.1 rfl)
      token.oneStatement.trimmed
    rw [operands_of_single token.oneStatement.trimmed token.filled token.whole] at phrase
    rw [text, statement_of_directive phrase (.inl rfl) (List.cons_ne_nil _ _), List.mapM_cons]
    cases value t <;> rfl
  | @load target r register =>
    have text : ("LDI " ++ String.ofList target ++ ", " ++ String.ofList t).toList =
        "LDI".toList ++ ' ' :: (target ++ ',' :: ' ' :: t) := by simp
    have pair : Trimmed (target ++ ',' :: ' ' :: t) := by
      simpa using register.token.oneStatement.trimmed.join token.oneStatement.trimmed
        register.token.filled token.filled [',', ' ']
    have phrase := phrase_of_word (s := "LDI".toList) (List.all_eq_true.1 rfl) pair
    rw [operands_of_pair register.token.oneStatement.trimmed token.oneStatement.trimmed
      register.token.whole token.whole] at phrase
    have count : Opcode.ldi.operands = 2 := by decide
    rw [text, statement_of_opcode phrase rfl count.symm, arguments, register_eq_ok_iff.2 register]
    cases value t <;> rfl

end TakesValue

/-- Where a value is wanted, a number is put out if it is a byte; otherwise it is reported, as out
of range if it fits 64 bits, and as malformed if it does not. -/
theorem assemble_plainNumeral (numeral : PlainNumeral t z) {front : List UInt8} {source : String}
    (takes : TakesValue t front source) :
    (0 ≤ z → z ≤ 255 → assemble source = .ok (front ++ [UInt8.ofNat z.toNat])) ∧
    (z < 0 ∨ 255 < z → -2 ^ 63 ≤ z → z < 2 ^ 63 →
      assemble source = .error ⟨1, .outOfRange z⟩) ∧
    (z < -2 ^ 63 ∨ 2 ^ 63 ≤ z → assemble source = .error ⟨1, .badNumber t⟩) := by
  have assembled := assemble_of_oneStatement (takes.oneStatement numeral.token)
  rw [takes.statement_eq numeral.token, numeral.value_eq] at assembled
  refine ⟨fun low high => ?_, fun large least greatest => ?_, fun far => ?_⟩
  · have fits : fitsWord z := fitsWord_iff.2 (by omega)
    rw [if_neg (not_not_intro fits), if_pos ⟨low, high⟩] at assembled
    refine assembled.trans (mapM_resolve_byte ?_ [])
    simp
  · have fits : fitsWord z := fitsWord_iff.2 ⟨least, greatest⟩
    rw [if_neg (not_not_intro fits), if_neg (by omega)] at assembled
    exact assembled
  · have beyond : ¬ fitsWord z := fun fits => by
      have within := fitsWord_iff.1 fits
      omega
    rw [if_pos beyond] at assembled
    exact assembled

/-- The largest byte with zeros in front, and the least number of 64 bits. -/
theorem assemble_plainNumeral_bounds :
    PlainNumeral "0X00fF".toList 255 ∧ PlainNumeral "-09223372036854775808".toList (-2 ^ 63) ∧
    assemble ("LDI " ++ String.ofList "r3".toList ++ ", " ++ String.ofList "0X00fF".toList) =
      .ok [0x99, 3, 255] ∧
    assemble ("DB " ++ String.ofList "-09223372036854775808".toList) =
      .error ⟨1, .outOfRange (-2 ^ 63)⟩ := by
  have byte : PlainNumeral "0X00fF".toList 255 := .hexadecimal (.inr rfl) ⟨2, by decide⟩
  have least : PlainNumeral "-09223372036854775808".toList (-2 ^ 63) :=
    .negative (n := 2 ^ 63) ⟨1, by decide⟩
  have third : RegisterOperand "r3".toList 3 := register_eq_ok_iff.1 rfl
  exact ⟨byte, least, (assemble_plainNumeral byte (.load third)).1 (by decide) (by decide),
    (assemble_plainNumeral least .data).2.1 (.inl (by decide)) (by decide) (by decide)⟩

end ByteMachine.Assembly
