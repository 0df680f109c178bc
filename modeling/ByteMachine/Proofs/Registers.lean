import ByteMachine.Arithmetic
import ByteMachine.Proofs.Result

/-! The register file through operand bytes: an access succeeds exactly if the byte
names a register, and a comparison changes the low three flags to one of them. -/
namespace ByteMachine.Registers

theorem ofByte_eq_ok_iff {index : UInt8} {r : Register} :
    Register.ofByte index = .ok r ↔ r.val = index.toNat := by
  unfold Register.ofByte
  split
  · simp [Fin.ext_iff, eq_comm]
  · have := r.isLt
    simp only [reduceCtorEq, false_iff]
    omega

theorem read_eq_ok_iff {regs : Registers} {index value : UInt8} :
    regs.read index = .ok value ↔ ∃ r : Register, r.val = index.toNat ∧ regs.get r = value := by
  simp only [read, Except.map_eq_ok_iff, ofByte_eq_ok_iff]

theorem write_eq_ok_iff {regs after : Registers} {index value : UInt8} :
    regs.write index value = .ok after ↔
      ∃ r : Register, r.val = index.toNat ∧ regs.set r value = after := by
  simp only [write, Except.map_eq_ok_iff, ofByte_eq_ok_iff]

def value (regs : Registers) (index : UInt8) : UInt8 := regs.general.toList.getD index.toNat 0

theorem value_eq_get (regs : Registers) {index : UInt8} {r : Register}
    (named : r.val = index.toNat) : regs.value index = regs.get r := by
  have lt : index.toNat < 8 := named ▸ r.isLt
  simp [value, get, named, lt]

theorem read_of_lt (regs : Registers) {index : UInt8} (h : index.toNat < 8) :
    regs.read index = .ok (regs.value index) :=
  read_eq_ok_iff.2 ⟨⟨index.toNat, h⟩, rfl, (value_eq_get regs rfl).symm⟩

theorem eq_value_of_read {regs : Registers} {index b : UInt8}
    (h : (Operand.register index).read regs = .ok b) : b = regs.value index := by
  obtain ⟨r, named, rfl⟩ := read_eq_ok_iff.1 h
  exact (value_eq_get regs named).symm

theorem eq_cmp_of_order {op : Operation} {a b : UInt8} {o : Ordering}
    (h : op.compute a b = .ok (.order o)) : op = .cmp := by
  cases op with
  | cmp => rfl
  | div =>
    simp only [Operation.compute] at h
    split at h <;> cases h
  | add | sub | mul | inc | dec => cases h

theorem apply_eq_ok {regs after : Registers} {op : Operation} {index : UInt8} {second : Operand}
    (h : regs.apply op index second = .ok after) :
    ∃ r : Register, r.val = index.toNat ∧ ∃ b, second.read regs = .ok b ∧
      ∃ result, op.compute (regs.get r) b = .ok result ∧
        after = match result with
          | .value v => regs.set r v
          | .order o => regs.setCompare o := by
  simp only [apply, Except.bind_eq_ok_iff, Except.mapError_eq_ok_iff, read_eq_ok_iff] at h
  obtain ⟨_, ⟨r, named, rfl⟩, b, second, result, computed, h⟩ := h
  refine ⟨r, named, b, second, result, computed, ?_⟩
  cases result with
  | order o => exact (Except.pure_eq_ok_iff.1 h).symm
  | value v =>
    simp only [Except.mapError_eq_ok_iff, write_eq_ok_iff] at h
    obtain ⟨r', named', rfl⟩ := h
    rw [Fin.ext (named'.trans named.symm)]

theorem equal_eq_testBit (regs : Registers) : regs.equal = regs.fl.toNat.testBit 0 := by
  have low : (regs.fl &&& equalFlag).toNat = regs.fl.toNat % 2 := by
    simp [equalFlag, Nat.and_one_is_mod]
  have zero : regs.fl &&& equalFlag = 0 ↔ regs.fl.toNat % 2 = 0 := by
    rw [← UInt8.toNat_inj, low, UInt8.toNat_zero]
  rw [equal, Nat.testBit_zero, bne, Bool.eq_iff_iff]
  simp only [Bool.not_eq_true', beq_eq_false_iff_ne, ne_eq, zero, decide_eq_true_eq]
  omega

theorem and_or_flag : ∀ n < 256, ∀ flag < 8, n &&& 0xF8 ||| flag = n / 8 * 8 + flag := by
  decide +kernel

theorem fl_setCompare (regs : Registers) (order : Ordering) :
    (regs.setCompare order).fl.toNat = regs.fl.toNat / 8 * 8 + (flagOf order).toNat := by
  have lt : (flagOf order).toNat < 8 := by cases order <;> decide
  simp only [setCompare, UInt8.toNat_or, UInt8.toNat_and]
  exact and_or_flag _ regs.fl.toNat_lt _ lt

theorem toNat_flagOf_compare (a b : UInt8) :
    (flagOf (compare a b)).toNat =
      if a.toNat = b.toNat then 1 else if b.toNat < a.toNat then 2 else 4 := by
  simp only [compare, compareOfLessAndEq, UInt8.lt_iff_toNat_lt, ← UInt8.toNat_inj]
  rcases Nat.lt_trichotomy a.toNat b.toNat with less | equal | greater
  · simp [less, Nat.ne_of_lt less, Nat.lt_asymm less, flagOf, lessFlag]
  · simp [equal, flagOf, equalFlag]
  · simp [greater, Nat.ne_of_gt greater, Nat.lt_asymm greater, flagOf, greaterFlag]

end ByteMachine.Registers
