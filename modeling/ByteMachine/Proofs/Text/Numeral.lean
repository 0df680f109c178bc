import ByteMachine.Proofs.Text.Blank
import ByteMachine.Text.Numeral
import Mathlib.Algebra.Group.Nat.Defs

/-! A number written in a base reads back as itself, with any leading zeros. -/
namespace ByteMachine.Text
variable {base : Nat}

theorem digitValue_digitChar : ∀ d < 16, digitValue (Nat.digitChar d) = d := by decide

theorem ofDigits_append (base : Nat) (digits : List Char) (last : Char) :
    ofDigits base (digits ++ [last]) = base * ofDigits base digits + digitValue last := by
  simp only [ofDigits, List.foldl_append, List.foldl_cons, List.foldl_nil]

theorem foldl_digits_lt {t : List Char} (digits : ∀ c ∈ t, isDigit base c) (n : Nat) :
    t.foldl (fun n c => base * n + digitValue c) n < (n + 1) * base ^ t.length := by
  induction t generalizing n with
  | nil => simp
  | cons c t ih =>
    have digit : digitValue c < base := of_decide_eq_true (digits c List.mem_cons_self)
    have rest := ih (fun d mem => digits d (List.mem_cons_of_mem _ mem)) (base * n + digitValue c)
    have next : base * n + digitValue c + 1 ≤ (n + 1) * base := by
      rw [Nat.add_mul, Nat.one_mul, Nat.mul_comm n]
      omega
    rw [List.foldl_cons, List.length_cons, Nat.pow_succ, Nat.mul_comm (base ^ t.length),
      ← Nat.mul_assoc]
    exact Nat.lt_of_lt_of_le rest (Nat.mul_le_mul_right _ next)

theorem ofDigits_lt {t : List Char} (digits : ∀ c ∈ t, isDigit base c) :
    ofDigits base t < base ^ t.length := by
  simpa [ofDigits] using foldl_digits_lt digits 0

theorem ofDigits_zeros (base : Nat) (digits : List Char) (zeros : Nat) :
    ofDigits base (List.replicate zeros '0' ++ digits) = ofDigits base digits := by
  induction zeros with
  | zero => rfl
  | succ zeros ih => exact ih

theorem ofDigits_toDigits (two : 1 < base) (hex : base ≤ 16) (n : Nat) :
    ofDigits base (Nat.toDigits base n) = n := by
  induction n using Nat.strongRecOn with
  | ind n ih =>
    by_cases small : n < base
    · rw [Nat.toDigits_of_lt_base small]
      simp only [ofDigits, List.foldl_cons, List.foldl_nil, digitValue_digitChar n (by omega)]
      omega
    · have fewer : n / base < n := Nat.div_lt_self (by omega) two
      have digit : n % base < base := Nat.mod_lt _ (by omega)
      rw [Nat.toDigits_of_base_le two (by omega), ofDigits_append, ih _ fewer,
        digitValue_digitChar _ (by omega), Nat.div_add_mod]

theorem isDigit_of_mem_toDigits (two : 1 < base) (hex : base ≤ 16) (n : Nat) :
    ∀ c ∈ Nat.toDigits base n, isDigit base c := by
  have digit : ∀ d < base, isDigit base (Nat.digitChar d) := fun d lt => by
    rw [isDigit, digitValue_digitChar d (by omega)]
    exact decide_eq_true lt
  induction n using Nat.strongRecOn with
  | ind n ih =>
    by_cases small : n < base
    · rw [Nat.toDigits_of_lt_base small]
      simpa using digit n small
    · have fewer : n / base < n := Nat.div_lt_self (by omega) two
      intro c mem
      rw [Nat.toDigits_of_base_le two (by omega), List.mem_append, List.mem_singleton] at mem
      rcases mem with mem | rfl
      · exact ih _ fewer c mem
      · exact digit _ (Nat.mod_lt _ (by omega))

theorem isDigit_mono {small large : Nat} (le : small ≤ large) {c : Char}
    (digit : isDigit small c) : isDigit large c :=
  decide_eq_true (Nat.lt_of_lt_of_le (of_decide_eq_true digit) le)

theorem padded_eq (base width n : Nat) :
    padded base width n =
      List.replicate (width - (Nat.toDigits base n).length) '0' ++ Nat.toDigits base n := rfl

theorem padded_ne_nil (base width n : Nat) : padded base width n ≠ [] := by
  rw [padded_eq]
  exact List.append_ne_nil_of_right_ne_nil _ Nat.toDigits_ne_nil

theorem decimal_eq_padded (n : Nat) : decimal n = padded 10 0 n := by
  rw [padded_eq, Nat.zero_sub]
  rfl

theorem isDigit_of_mem_padded (two : 1 < base) (hex : base ≤ 16) (width n : Nat) :
    ∀ c ∈ padded base width n, isDigit base c := by
  intro c mem
  rw [padded_eq, List.mem_append] at mem
  rcases mem with zero | digit
  · rw [List.eq_of_mem_replicate zero]
    exact isDigit_mono two (by decide)
  · exact isDigit_of_mem_toDigits two hex n c digit

theorem readNat?_padded (two : 1 < base) (hex : base ≤ 16) (width n : Nat) :
    readNat? base (padded base width n) = some n := by
  have digits := List.all_eq_true.2 (isDigit_of_mem_padded two hex width n)
  rw [readNat?, if_pos ⟨padded_ne_nil base width n, digits⟩, padded_eq, ofDigits_zeros,
    ofDigits_toDigits two hex]

theorem padded_injective (two : 1 < base) (hex : base ≤ 16) {width m n : Nat}
    (same : padded base width m = padded base width n) : m = n := by
  have read := readNat?_padded two hex width m
  rw [same, readNat?_padded two hex] at read
  exact (Option.some.inj read).symm

theorem not_isDigit {c : Char} (large : digitValue c = 16) (hex : base ≤ 16) : ¬ isDigit base c := by
  intro digit
  have less := of_decide_eq_true digit
  omega

theorem readUnsigned?_of_digits (hex : base ≤ 16) {t : List Char} (digits : ∀ c ∈ t, isDigit base c) :
    readUnsigned? base t = readNat? base t := by
  unfold readUnsigned?
  split
  · exact absurd (digits '+' List.mem_cons_self) (not_isDigit (by decide) hex)
  · rfl

theorem readUnsigned?_padded (two : 1 < base) (hex : base ≤ 16) (width n : Nat) :
    readUnsigned? base (padded base width n) = some n := by
  rw [readUnsigned?_of_digits hex (isDigit_of_mem_padded two hex width n),
    readNat?_padded two hex]

theorem readSigned?_of_digits (hex : base ≤ 16) {t : List Char} (digits : ∀ c ∈ t, isDigit base c) :
    readSigned? base t = ((readNat? base t).map Int.ofNat).filter fitsWord := by
  unfold readSigned?
  split
  · exact absurd (digits '-' List.mem_cons_self) (not_isDigit (by decide) hex)
  · rw [readUnsigned?_of_digits hex digits]

theorem fitsWord_byte (b : UInt8) : fitsWord b.toNat := by
  have small := b.toNat_lt
  have least : Int64.minValue.toInt = -9223372036854775808 := rfl
  have greatest : Int64.maxValue.toInt = 9223372036854775807 := rfl
  rw [fitsWord, least, greatest, Bool.and_eq_true, decide_eq_true_eq, decide_eq_true_eq]
  omega

theorem readSigned?_padded (two : 1 < base) (hex : base ≤ 16) (width : Nat) {n : Nat}
    (fits : fitsWord n) : readSigned? base (padded base width n) = some (n : Int) := by
  rw [readSigned?_of_digits hex (isDigit_of_mem_padded two hex width n), readNat?_padded two hex]
  exact Option.filter_some_pos fits

variable {t : List Char}

structure Digits (base : Nat) (t : List Char) (n : Nat) : Prop where
  nonempty : t ≠ []
  digits : ∀ c ∈ t, isDigit base c
  value : ofDigits base t = n

theorem readNat?_eq_some_iff {n : Nat} : readNat? base t = some n ↔ Digits base t n := by
  rw [readNat?]
  constructor
  · intro read
    split at read
    · next both => exact ⟨both.1, List.all_eq_true.1 both.2, Option.some.inj read⟩
    · cases read
  · intro number
    rw [if_pos ⟨number.nonempty, List.all_eq_true.2 number.digits⟩, number.value]

inductive Unsigned (base : Nat) : List Char → Nat → Prop
  | bare {t : List Char} {n : Nat} (number : Digits base t n) : Unsigned base t n
  | plus {t : List Char} {n : Nat} (number : Digits base t n) : Unsigned base ('+' :: t) n

theorem readUnsigned?_eq_some_iff (hex : base ≤ 16) {n : Nat} :
    readUnsigned? base t = some n ↔ Unsigned base t n := by
  constructor
  · intro read
    unfold readUnsigned? at read
    split at read
    · exact .plus (readNat?_eq_some_iff.1 read)
    · exact .bare (readNat?_eq_some_iff.1 read)
  · rintro (number | number)
    · rw [readUnsigned?_of_digits hex number.digits, readNat?_eq_some_iff.2 number]
    · exact readNat?_eq_some_iff.2 number

inductive Signed (base : Nat) : List Char → Int → Prop
  | unsigned {t : List Char} {n : Nat} (number : Unsigned base t n) : Signed base t n
  | minus {t : List Char} {n : Nat} (number : Digits base t n) : Signed base ('-' :: t) (-n)

theorem Unsigned.head_ne_minus (hex : base ≤ 16) {n : Nat} {rest : List Char} :
    ¬ Unsigned base ('-' :: rest) n := by
  rintro ⟨number⟩
  exact not_isDigit (by decide) hex (number.digits '-' List.mem_cons_self)

theorem readSigned?_eq_some_iff (hex : base ≤ 16) {z : Int} :
    readSigned? base t = some z ↔ Signed base t z ∧ fitsWord z := by
  unfold readSigned?
  rw [Option.filter_eq_some_iff, and_congr_left_iff]
  intro fits
  split
  · next rest =>
    simp only [Option.map_eq_some_iff, readNat?_eq_some_iff]
    constructor
    · rintro ⟨n, number, rfl⟩
      exact .minus number
    · rintro (number | number)
      · exact absurd number (Unsigned.head_ne_minus hex)
      · exact ⟨_, number, rfl⟩
  · next unsigned =>
    simp only [Option.map_eq_some_iff, readUnsigned?_eq_some_iff hex]
    constructor
    · rintro ⟨n, number, rfl⟩
      exact .unsigned number
    · rintro (number | number)
      · exact ⟨_, number, rfl⟩
      · exact absurd rfl (unsigned _)

theorem digitChar_digitValue {c : Char} (digit : isDigit 10 c) :
    Nat.digitChar (digitValue c) = c := by
  have less := of_decide_eq_true digit
  have decimal : '0' ≤ c ∧ c ≤ '9' := by
    by_cases range : '0' ≤ c ∧ c ≤ '9'
    · exact range
    · rw [digitValue, if_neg range] at less
      split at less
      · omega
      · split at less <;> omega
  have low : 48 ≤ c.toNat := decimal.1
  have high : c.toNat ≤ 57 := decimal.2
  have value : digitValue c = c.toNat - 48 := if_pos decimal
  have table : ∀ d < 10, Nat.digitChar d = Char.ofNat (d + 48) := by decide
  rw [value, table _ (by omega), Nat.sub_add_cancel low, Char.ofNat_toNat]

theorem forall_isDigit {p : Char → Prop} (all : ∀ d < 10, p (Nat.digitChar d)) {c : Char}
    (digit : isDigit 10 c) : p c := by
  rw [← digitChar_digitValue digit]
  exact all _ (of_decide_eq_true digit)

theorem Word.of_digits {t : List Char} (digits : ∀ c ∈ t, isDigit 10 c) : Word t := fun c mem =>
  forall_isDigit (p := fun c => c.isAlphanum) (by decide) (digits c mem)

theorem Word.padded (two : 1 < base) (decimal : base ≤ 10) (width n : Nat) :
    Word (Text.padded base width n) :=
  of_digits fun c mem =>
    isDigit_mono decimal (isDigit_of_mem_padded two (by omega) width n c mem)

theorem Word.decimal (n : Nat) : Word (Text.decimal n) := by
  rw [decimal_eq_padded]
  exact Word.padded (by decide) (by decide) 0 n

theorem Word.binary (b : UInt8) : Word (Text.binary b) :=
  Word.padded (by decide) (by decide) 8 b.toNat

end ByteMachine.Text
