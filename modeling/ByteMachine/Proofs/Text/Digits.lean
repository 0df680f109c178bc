import ByteMachine.Proofs.Text.Case
import Mathlib.Data.List.Induction

/-! A number has one spelling in a base, up to leading zeros and the case of its digits: the digits
that make a number are zeros and then the numeral of that number. -/
namespace ByteMachine.Text
variable {base : Nat} {t : List Char}

theorem toNat_lt_of_digit {c : Char} (digit : digitValue c < 16) : c.toNat < 128 := by
  rw [digitValue] at digit
  split at digit
  · next range =>
    have high : c.toNat ≤ 57 := range.2
    omega
  · split at digit
    · next range =>
      have high : c.toNat ≤ 102 := range.2
      omega
    · split at digit
      · next range =>
        have high : c.toNat ≤ 70 := range.2
        omega
      · omega

theorem toLower_eq_digitChar {c : Char} (digit : digitValue c < 16) :
    c.toLower = Nat.digitChar (digitValue c) :=
  forall_ascii (p := fun c => digitValue c < 16 → c.toLower = Nat.digitChar (digitValue c))
    (by decide) (toNat_lt_of_digit digit) digit

theorem isAlphanum_of_digit {c : Char} (digit : digitValue c < 16) : c.isAlphanum :=
  forall_ascii (p := fun c => digitValue c < 16 → c.isAlphanum) (by decide)
    (toNat_lt_of_digit digit) digit

theorem Digits.word (hex : base ≤ 16) {n : Nat} (number : Digits base t n) : Word t :=
  fun c mem => isAlphanum_of_digit
    (Nat.lt_of_lt_of_le (of_decide_eq_true (number.digits c mem)) hex)

/-- Digits that write out a number: zeros, as many as one likes, and its numeral. -/
def Written (base n : Nat) (t : List Char) : Prop :=
  ∃ zeros, asciiLowercase t = List.replicate zeros '0' ++ Nat.toDigits base n

theorem Written.digits (two : 1 < base) (hex : base ≤ 16) {n : Nat} (written : Written base n t) :
    Digits base t n := by
  obtain ⟨zeros, spelled⟩ := written
  have width : zeros + (Nat.toDigits base n).length - (Nat.toDigits base n).length = zeros :=
    Nat.add_sub_cancel ..
  have number := readNat?_eq_some_iff.1
    (readNat?_padded two hex (zeros + (Nat.toDigits base n).length) n)
  rw [padded_eq, width, ← spelled] at number
  exact digits_asciiLowercase.1 number

theorem Written.concat (two : 1 < base) (hex : base ≤ 16) {n : Nat} (written : Written base n t)
    {c : Char} (digit : isDigit base c) : Written base (base * n + digitValue c) (t ++ [c]) := by
  have small : digitValue c < base := of_decide_eq_true digit
  have last := toLower_eq_digitChar (Nat.lt_of_lt_of_le small hex)
  obtain ⟨zeros, spelled⟩ := written
  have behind : asciiLowercase (t ++ [c]) =
      List.replicate zeros '0' ++ Nat.toDigits base n ++ [Nat.digitChar (digitValue c)] := by
    rw [asciiLowercase, List.map_append, ← asciiLowercase, spelled, List.map_singleton, last]
  by_cases zero : n = 0
  · subst zero
    refine ⟨zeros + 1, behind.trans ?_⟩
    have one : Nat.toDigits base 0 = ['0'] := Nat.toDigits_of_lt_base (Nat.lt_trans Nat.one_pos two)
    rw [one, Nat.mul_zero, Nat.zero_add, Nat.toDigits_of_lt_base small, List.replicate_succ']
  · refine ⟨zeros, behind.trans ?_⟩
    have large : base ≤ base * n + digitValue c :=
      Nat.le_add_right_of_le (Nat.le_mul_of_pos_right base (Nat.pos_of_ne_zero zero))
    rw [Nat.toDigits_of_base_le two large, Nat.mul_add_div (by omega), Nat.mul_add_mod,
      Nat.div_eq_of_lt small, Nat.mod_eq_of_lt small, Nat.add_zero, List.append_assoc]

theorem Digits.written (two : 1 < base) (hex : base ≤ 16) {n : Nat} (number : Digits base t n) :
    Written base n t := by
  induction t using List.reverseRecOn generalizing n with
  | nil => exact absurd rfl number.nonempty
  | append_singleton init last ih =>
    obtain ⟨-, digits, rfl⟩ := number
    obtain ⟨front, digit⟩ := List.forall_mem_append.1 digits
    have digit := digit last (List.mem_singleton_self last)
    by_cases none : init = []
    · subst none
      have small : digitValue last < base := of_decide_eq_true digit
      have value : ofDigits base [last] = digitValue last := by simp [ofDigits]
      refine ⟨0, ?_⟩
      rw [List.nil_append, value, Nat.toDigits_of_lt_base small,
        ← toLower_eq_digitChar (Nat.lt_of_lt_of_le small hex)]
      rfl
    · rw [ofDigits_append]
      exact (ih ⟨none, front, rfl⟩).concat two hex digit

end ByteMachine.Text
