import ByteMachine.Proofs.Machine.Semantics

/-! Which fault a step ends with. Several things can be wrong at once, and the first
in a fixed order is the fault; if nothing is wrong, the step succeeds. -/
namespace ByteMachine

namespace Instruction
variable {σ : Type} [Sink σ] (i : Instruction) (regs : Registers) (mem : Memory)

def computeFault : Option Fault :=
  if 1 ≤ i.opcode.operands ∧ 7 < i.a.toNat then some (.register ⟨i.a⟩)
  else if i.opcode ∈ [.add, .sub, .mul, .div, .cmp] ∧ 7 < i.b.toNat then some (.register ⟨i.b⟩)
  else if i.opcode = .div ∧ regs.value i.b = 0 then some .divisionByZero
  else if i.opcode = .push ∧ regs.sp ≠ 0 ∧ mem.size ≤ regs.sp.toNat - 1 then
    some (.memory (.addressOutOfRange (regs.sp - 1) mem.size))
  else if i.opcode = .pop ∧ mem.size ≤ regs.sp.toNat then
    some (.memory (.addressOutOfRange regs.sp mem.size))
  else none

def outputFault (out : σ) : Option Fault :=
  if i.opcode = .prn then
    match (Sink.write out (regs.value i.a)).1 with
    | .ok () => none
    | .error reason => some (.output reason)
  else none

def firstFault (out : σ) : Option Fault := (i.computeFault regs mem).or (i.outputFault regs out)

end Instruction

namespace Machine
variable {σ : Type} [Sink σ]

def firstFault (m : Machine) (out : σ) : Option Fault :=
  let pc := m.regs.pc
  let byte := m.mem.cell pc.toNat
  if m.state ≠ .running then some (.notRunning m.state)
  else if m.mem.size ≤ pc.toNat then some (.memory (.addressOutOfRange pc m.mem.size))
  else match Opcode.ofByte? byte with
    | none => some (.invalidOpcode byte pc)
    | some opcode => (m.instructionAt opcode).firstFault m.regs m.mem out

end Machine

namespace Instruction
variable {σ : Type} [Sink σ] {regs : Registers} {mem : Memory}

theorem effect_of_unnamed_first {opcode : Opcode} {a b : UInt8} (takes : 1 ≤ opcode.operands)
    (unnamed : ¬ a.toNat < 8) :
    effect ⟨opcode, a, b⟩ regs mem = .error (.register ⟨a⟩) := by
  have register : register a = .error (.register ⟨a⟩) := by
    rw [register, Register.ofByte_of_not_lt unnamed]
    rfl
  have read : regs.read a = .error ⟨a⟩ :=
    Registers.read_of_ofByte_error (Register.ofByte_of_not_lt unnamed) regs
  cases opcode with
  | hlt => exact absurd takes (by decide)
  | prn | push | pop | jmp | jeq | jne | ldi =>
    simp only [effect, register]
    rfl
  | add | sub | mul | div | cmp | inc | dec =>
    simp only [effect, compute, Registers.apply, read]
    rfl

theorem effect_of_unnamed_second {opcode : Opcode} {a b : UInt8}
    (binary : opcode ∈ [.add, .sub, .mul, .div, .cmp]) (named : a.toNat < 8)
    (unnamed : ¬ b.toNat < 8) :
    effect ⟨opcode, a, b⟩ regs mem = .error (.register ⟨b⟩) := by
  have first : regs.read a = .ok (regs.get ⟨a.toNat, named⟩) :=
    Registers.read_of_ofByte (Register.ofByte_of_lt named) regs
  have second : regs.read b = .error ⟨b⟩ :=
    Registers.read_of_ofByte_error (Register.ofByte_of_not_lt unnamed) regs
  simp only [List.mem_cons, List.not_mem_nil, or_false] at binary
  rcases binary with rfl | rfl | rfl | rfl | rfl <;>
    simp only [effect, compute, Registers.apply, Operand.read, first, second] <;> rfl

theorem prev_sp_out_of_range_iff :
    mem.size ≤ (mem.prev regs.sp).toNat ↔ regs.sp ≠ 0 ∧ mem.size ≤ regs.sp.toNat - 1 := by
  have pos := mem.size_pos
  rw [toNat_prev_sp, below]
  split
  · next first =>
    simp only [first, ne_eq, not_true_eq_false, false_and, iff_false]
    omega
  · next inner => simp [inner]

theorem prev_sp_of_out_of_range (far : mem.size ≤ (mem.prev regs.sp).toNat) :
    mem.prev regs.sp = regs.sp - 1 :=
  if_neg (prev_sp_out_of_range_iff.1 far).1

theorem compute_divisionByZero {a : UInt8} {second : Operand} (named : a.toNat < 8)
    (zero : second.read regs = .ok 0) :
    compute .div a second regs mem = .error .divisionByZero := by
  have first : regs.read a = .ok (regs.get ⟨a.toNat, named⟩) :=
    Registers.read_of_ofByte (Register.ofByte_of_lt named) regs
  simp only [compute, Registers.apply, first, zero]
  rfl

theorem compute_isOk {op : Operation} {a y : UInt8} {second : Operand} (named : a.toNat < 8)
    (source : second.read regs = .ok y) (fine : op = .div → y ≠ 0) :
    ∃ done, compute op a second regs mem = .ok done := by
  have first : regs.read a = .ok (regs.get ⟨a.toNat, named⟩) :=
    Registers.read_of_ofByte (Register.ofByte_of_lt named) regs
  have stored (v : UInt8) : regs.write a v = .ok (regs.set ⟨a.toNat, named⟩ v) :=
    Registers.write_of_ofByte (Register.ofByte_of_lt named) regs v
  obtain ⟨result, computed⟩ : ∃ result, op.compute (regs.get ⟨a.toNat, named⟩) y = .ok result := by
    cases op with
    | div => exact ⟨_, if_neg (fine rfl)⟩
    | add | sub | mul | inc | dec | cmp => exact ⟨_, rfl⟩
  have applied : ∃ after, regs.apply op a second = .ok after := by
    simp only [Registers.apply, first, source]
    change ∃ after, (op.compute _ y >>= _) = .ok after
    rw [computed]
    cases result with
    | value v =>
      change ∃ after, (regs.write a v).mapError _ = .ok after
      rw [stored]
      exact ⟨_, rfl⟩
    | order o => exact ⟨_, rfl⟩
  obtain ⟨after, applied⟩ := applied
  rw [compute, applied]
  exact ⟨_, rfl⟩

theorem effect_of_below_out_of_range {a b : UInt8} (named : a.toNat < 8)
    (far : mem.size ≤ (mem.prev regs.sp).toNat) :
    effect ⟨.push, a, b⟩ regs mem =
      .error (.memory (.addressOutOfRange (regs.sp - 1) mem.size)) := by
  have refused (v : UInt8) : mem.write (mem.prev regs.sp) v =
      .error (.addressOutOfRange (regs.sp - 1) mem.size) := by
    rw [Memory.write_of_not_lt (Nat.not_lt.2 far), prev_sp_of_out_of_range far]
  simp only [effect, push, register, Register.ofByte_of_lt named]
  change ((mem.write (mem.prev regs.sp) _).mapError _ >>= _) = _
  rw [refused]
  rfl

theorem effect_of_sp_out_of_range {a b : UInt8} (named : a.toNat < 8)
    (far : mem.size ≤ regs.sp.toNat) :
    effect ⟨.pop, a, b⟩ regs mem = .error (.memory (.addressOutOfRange regs.sp mem.size)) := by
  simp only [effect, pop, register, Register.ofByte_of_lt named]
  change ((mem.read regs.sp).mapError _ >>= _) = _
  rw [Memory.read_of_not_lt (Nat.not_lt.2 far)]
  rfl

theorem effect_isOk {opcode : Opcode} {a b : UInt8}
    (first : 1 ≤ opcode.operands → a.toNat < 8)
    (second : opcode ∈ [.add, .sub, .mul, .div, .cmp] → b.toNat < 8)
    (divisor : opcode = .div → regs.value b ≠ 0)
    (pushes : opcode = .push → (mem.prev regs.sp).toNat < mem.size)
    (pops : opcode = .pop → regs.sp.toNat < mem.size) :
    ∃ done, effect ⟨opcode, a, b⟩ regs mem = .ok done := by
  cases opcode with
  | hlt => exact ⟨_, rfl⟩
  | prn | jmp | jeq | jne | ldi =>
    have named := first (by decide)
    simp only [effect, register, Register.ofByte_of_lt named]
    exact ⟨_, rfl⟩
  | inc | dec => exact compute_isOk (first (by decide)) rfl fun div => absurd div (by decide)
  | add | sub | mul | cmp =>
    have source := Registers.read_of_lt regs (second (by decide))
    exact compute_isOk (first (by decide)) source fun div => absurd div (by decide)
  | div =>
    have source := Registers.read_of_lt regs (second (by decide))
    exact compute_isOk (first (by decide)) source fun _ => divisor rfl
  | push =>
    have named := first (by decide)
    obtain ⟨after, stored⟩ :=
      Memory.write_isOk (pushes rfl) (regs.get ⟨a.toNat, named⟩)
    simp only [effect, push, register, Register.ofByte_of_lt named]
    change ∃ done, ((mem.write (mem.prev regs.sp) _).mapError _ >>= _) = .ok done
    rw [stored]
    exact ⟨_, rfl⟩
  | pop =>
    have named := first (by decide)
    simp only [effect, pop, register, Register.ofByte_of_lt named]
    change ∃ done, ((mem.read regs.sp).mapError _ >>= _) = .ok done
    rw [Memory.read_of_lt (pops rfl)]
    exact ⟨_, rfl⟩

theorem error?_effect (i : Instruction) (regs : Registers) (mem : Memory) :
    Except.error? (i.effect regs mem) = i.computeFault regs mem := by
  obtain ⟨opcode, a, b⟩ := i
  simp only [computeFault]
  by_cases first : 1 ≤ opcode.operands ∧ 7 < a.toNat
  · rw [if_pos first, effect_of_unnamed_first first.1 (Nat.not_lt.2 first.2)]
    rfl
  have named (takes : 1 ≤ opcode.operands) : a.toNat < 8 := by omega
  rw [if_neg first]
  by_cases second : opcode ∈ [.add, .sub, .mul, .div, .cmp] ∧ 7 < b.toNat
  · have takes : ∀ op ∈ [Opcode.add, .sub, .mul, .div, .cmp], 1 ≤ op.operands := by decide
    rw [if_pos second, effect_of_unnamed_second second.1 (named (takes _ second.1))
      (Nat.not_lt.2 second.2)]
    rfl
  have readable (binary : opcode ∈ [.add, .sub, .mul, .div, .cmp]) : b.toNat < 8 :=
    Nat.lt_of_not_le fun far => second ⟨binary, far⟩
  rw [if_neg second]
  by_cases divisor : opcode = .div ∧ regs.value b = 0
  · rw [if_pos divisor]
    obtain ⟨rfl, zero⟩ := divisor
    have source : (Operand.register b).read regs = .ok 0 :=
      zero ▸ Registers.read_of_lt regs (readable (by decide))
    exact congrArg Except.error? (compute_divisionByZero (named (by decide)) source)
  rw [if_neg divisor]
  by_cases pushes : opcode = .push ∧ regs.sp ≠ 0 ∧ mem.size ≤ regs.sp.toNat - 1
  · rw [if_pos pushes]
    obtain ⟨rfl, far⟩ := pushes
    rw [effect_of_below_out_of_range (named (by decide)) (prev_sp_out_of_range_iff.2 far)]
    rfl
  rw [if_neg pushes]
  by_cases pops : opcode = .pop ∧ mem.size ≤ regs.sp.toNat
  · rw [if_pos pops]
    obtain ⟨rfl, far⟩ := pops
    rw [effect_of_sp_out_of_range (named (by decide)) far]
    rfl
  rw [if_neg pops]
  obtain ⟨done, effect⟩ := effect_isOk named readable (fun div zero => divisor ⟨div, zero⟩)
    (fun push => Nat.lt_of_not_le fun far => pushes ⟨push, prev_sp_out_of_range_iff.1 far⟩)
    (fun pop => Nat.lt_of_not_le fun far => pops ⟨pop, far⟩)
  rw [effect]
  rfl

theorem error?_perform (i : Instruction) (regs : Registers) (mem : Memory) (out : σ) :
    Except.error? (i.perform regs mem out).1 = i.firstFault regs mem out := by
  unfold firstFault
  rw [← error?_effect]
  cases effect : i.effect regs mem with
  | error f => simp only [perform, effect, Except.error?, Option.or]
  | ok done =>
    have printed := (means_of_effect effect).printed
    simp only [perform, effect, printed, Except.error?, Option.or, outputFault]
    by_cases printing : i.opcode = .prn
    · simp only [printing, if_true]
      rcases Sink.write out (regs.value i.a) with ⟨_ | _, out⟩ <;> rfl
    · simp only [printing, if_false]

end Instruction

namespace Machine
variable {σ : Type} [Sink σ]

end Machine

end ByteMachine
