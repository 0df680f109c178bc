import ByteMachine.Proofs.Machine.Faults
import ByteMachine.Proofs.Machine.Run
import Mathlib.Data.Set.Basic

/-! Cells that nobody reads. A step depends on the cells of its opcode and of the operands that
count, and on the cell that it pops, so two machines that differ in other cells only do the same
until one of those cells is read, or is written over and is the same again. -/
namespace ByteMachine

theorem Registers.ext_get {one two : Registers} (pc : one.pc = two.pc) (ir : one.ir = two.ir)
    (fl : one.fl = two.fl) (general : ∀ r, one.get r = two.get r) : one = two := by
  obtain ⟨_, _, _, _⟩ := one
  obtain ⟨_, _, _, _⟩ := two
  cases pc
  cases ir
  cases fl
  have same := Vector.ext fun index lt => general ⟨index, lt⟩
  cases same
  rfl

namespace Memory

structure AgreeOutside (cells : Set Nat) (one two : Memory) : Prop where
  size : two.size = one.size
  cell : ∀ address ∉ cells, two.cell address = one.cell address

theorem AgreeOutside.mono {cells more : Set Nat} {one two : Memory}
    (agree : one.AgreeOutside cells two) (subset : cells ⊆ more) : one.AgreeOutside more two where
  size := agree.size
  cell address outside := agree.cell address fun mem => outside (subset mem)

theorem AgreeOutside.eq {one two : Memory} (agree : one.AgreeOutside ∅ two) : two = one := by
  obtain ⟨cells, valid⟩ := one
  obtain ⟨cells', valid'⟩ := two
  have same : cells' = cells := by
    refine Array.ext agree.size fun k less less' => ?_
    have content : cells'.getD k 0 = cells.getD k 0 := agree.cell k (Set.notMem_empty k)
    simpa [less, less'] using content
  cases same
  rfl

def unwritten (cells : Set Nat) (written : Option Nat) : Set Nat :=
  {address ∈ cells | written ≠ some address}

theorem unwritten_none (cells : Set Nat) : unwritten cells none = cells := by simp [unwritten]

end Memory

structure Effect.AgreeOutside (cells : Set Nat) (one two : Effect) : Prop where
  regs : two.regs = one.regs
  mem : one.mem.AgreeOutside cells two.mem
  flow : two.flow = one.flow
  printed : two.printed = one.printed

namespace Instruction

/-- An instruction as far as it counts: its opcode and as many operands as that announces. -/
def declared (i : Instruction) : Opcode × List UInt8 :=
  (i.opcode, [i.a, i.b].take i.opcode.operands)

theorem declared_eq_iff {opcode : Opcode} {a b c d : UInt8} :
    declared ⟨opcode, a, b⟩ = declared ⟨opcode, c, d⟩ ↔
      (0 < opcode.operands → a = c) ∧ (1 < opcode.operands → b = d) := by
  have le := opcode.operands_le
  simp only [declared, Prod.mk.injEq, true_and]
  generalize opcode.operands = n at le ⊢
  match n with
  | 0 => simp
  | 1 => simp
  | 2 => simp

theorem effect_congr {i j : Instruction} (same : i.declared = j.declared) :
    i.effect = j.effect := by
  obtain ⟨opcode, a, b⟩ := i
  obtain ⟨opcode', c, d⟩ := j
  obtain rfl : opcode = opcode' := (Prod.mk.inj same).1
  obtain ⟨first, second⟩ := declared_eq_iff.1 same
  cases opcode with
  | hlt => rfl
  | prn | push | pop | jmp | jeq | jne | inc | dec =>
    cases first (by decide)
    rfl
  | ldi | cmp | add | sub | mul | div =>
    cases first (by decide)
    cases second (by decide)
    rfl

variable {σ : Type} [Sink σ]

theorem perform_congr {i j : Instruction} (same : i.declared = j.declared) (regs : Registers)
    (mem : Memory) (out : σ) : i.perform regs mem out = j.perform regs mem out := by
  rw [perform, perform, effect_congr same]

theorem run_congr {i j : Instruction} (same : i.declared = j.declared) (core : Core σ) :
    i.run core = j.run core := by
  rw [run_eq_perform, run_eq_perform, perform_congr same]

def overwrites? (i : Instruction) (regs : Registers) (mem : Memory) : Option Nat :=
  if i.opcode = .push then some (below regs mem) else none

variable {i : Instruction} {regs : Registers} {one two : Memory} {cells : Set Nat}

theorem named_of_effect {done : Effect} (effect : i.effect regs one = .ok done)
    (takes : 1 ≤ i.opcode.operands) : i.a.toNat < 8 := by
  by_contra unnamed
  rw [effect_of_unnamed_first takes unnamed] at effect
  cases effect

theorem effect_agree {done other : Effect} (agree : one.AgreeOutside cells two)
    (effect : i.effect regs one = .ok done) (effect' : i.effect regs two = .ok other)
    (popped : i.opcode = .pop → regs.sp.toNat ∉ cells) :
    done.AgreeOutside (Memory.unwritten cells (i.overwrites? regs one)) other := by
  have means := means_of_effect effect
  have means' := means_of_effect effect'
  have pushes : below regs two = below regs one := by simp only [below, agree.size]
  have registers (r : Register) : i.registerAfter regs two r = i.registerAfter regs one r := by
    by_cases pops : i.opcode = .pop
    · simp only [registerAfter, pops, above, agree.size, agree.cell _ (popped pops)]
    · simp only [registerAfter, pushes]
      split <;> first | rfl | exact absurd ‹_› pops
  refine ⟨Registers.ext_get ?_ ?_ ?_ fun r => ?_, ⟨?_, fun address outside => ?_⟩, ?_, ?_⟩
  · rw [means.pc, means'.pc]
  · rw [means.ir, means'.ir]
  · rw [← UInt8.toNat_inj, means.flags, means'.flags]
  · rw [← UInt8.toNat_inj, ← Int.ofNat_inj]
    exact (means'.registers r).trans ((registers r).trans (means.registers r).symm)
  · rw [means.size, means'.size, agree.size]
  · rw [means.cells, means'.cells, cellAfter, cellAfter, pushes]
    split
    · rfl
    · next kept =>
      refine agree.cell address fun inside => outside ⟨inside, fun written => kept ?_⟩
      simpa [overwrites?, eq_comm] using written
  · rw [means.flow, means'.flow]
  · rw [means.printed, means'.printed]

theorem perform_agree (agree : one.AgreeOutside cells two) (out : σ)
    (popped : i.opcode = .pop → i.a.toNat < 8 → regs.sp.toNat ∉ cells) :
    (∃ f written, i.perform regs one out = (.error f, written) ∧
      i.perform regs two out = (.error f, written)) ∨
    ∃ done other written, i.perform regs one out = (.ok done, written) ∧
      i.perform regs two out = (.ok other, written) ∧
      done.AgreeOutside (Memory.unwritten cells (i.overwrites? regs one)) other := by
  -- What is wrong with an instruction depends on the size of memory only.
  have faults : Except.error? (i.effect regs one) = Except.error? (i.effect regs two) := by
    simp only [error?_effect, computeFault, agree.size]
  obtain ⟨f, effect, effect'⟩ | ⟨done, other, effect, effect'⟩ := Except.error?_congr faults
  · exact .inl ⟨f, out, by rw [perform, effect], by rw [perform, effect']⟩
  · have same := effect_agree agree effect effect' fun pops =>
      popped pops (named_of_effect effect (by rw [pops]; decide))
    simp only [perform, effect, effect', same.printed]
    cases done.printed with
    | none => exact .inr ⟨done, other, out, rfl, rfl, same⟩
    | some b =>
      rcases taken : Sink.write out b with ⟨reason | _, written⟩
      · exact .inl ⟨.output reason, written, by simp only [taken], by simp only [taken]⟩
      · exact .inr ⟨done, other, written, by simp only [taken], by simp only [taken], same⟩

end Instruction

namespace Machine

/-- The cells that decide what comes of the next step: the opcode byte, the operand bytes that
it announces and the cell that is popped. -/
def reads (m : Machine) : List Nat :=
  let pc := m.regs.pc.toNat
  if m.state = .running ∧ pc < m.mem.size then
    match Opcode.ofByte? (m.mem.cell pc) with
    | none => [pc]
    | some opcode =>
      pc :: (List.range opcode.operands).map (fun k => (pc + 1 + k) % m.mem.size) ++
        if opcode = .pop ∧ (m.instructionAt opcode).a.toNat < 8 then [m.regs.sp.toNat] else []
  else []

section Reads
variable {m : Machine} {opcode : Opcode}

theorem pc_mem_reads (running : m.state = .running) (inside : m.regs.pc.toNat < m.mem.size) :
    m.regs.pc.toNat ∈ m.reads := by
  simp only [reads, running, inside, and_self, if_true]
  split
  · exact List.mem_singleton_self _
  · exact List.mem_append_left _ List.mem_cons_self

theorem reads_of_known (running : m.state = .running)
    (read : m.mem.read m.regs.pc = .ok opcode.byte) :
    m.reads = m.regs.pc.toNat ::
      (List.range opcode.operands).map (fun k => (m.regs.pc.toNat + 1 + k) % m.mem.size) ++
        if opcode = .pop ∧ (m.instructionAt opcode).a.toNat < 8 then [m.regs.sp.toNat] else [] := by
  obtain ⟨inside, byte⟩ := Memory.read_eq_ok_iff.1 read
  simp only [reads, running, inside, byte, Opcode.ofByte?_byte, and_self, if_true]

theorem operand_mem_reads (running : m.state = .running)
    (read : m.mem.read m.regs.pc = .ok opcode.byte) {k : Nat} (counts : k < opcode.operands) :
    (m.regs.pc.toNat + 1 + k) % m.mem.size ∈ m.reads := by
  rw [reads_of_known running read]
  exact List.mem_append_left _ (List.mem_cons_of_mem _
    (List.mem_map.2 ⟨k, List.mem_range.2 counts, rfl⟩))

theorem sp_mem_reads (running : m.state = .running)
    (read : m.mem.read m.regs.pc = .ok opcode.byte) (pops : opcode = .pop)
    (named : (m.instructionAt opcode).a.toNat < 8) : m.regs.sp.toNat ∈ m.reads := by
  rw [reads_of_known running read, if_pos ⟨pops, named⟩]
  exact List.mem_append_right _ (List.mem_singleton_self _)

end Reads

/-- That two machines and their sinks are the same, but for the content of some cells and for
the operands of the last instruction that do not count. -/
structure Twins {σ : Type} (cells : Set Nat) (one two : Machine × σ) : Prop where
  regs : two.1.regs = one.1.regs
  mem : one.1.mem.AgreeOutside cells two.1.mem
  state : two.1.state = one.1.state
  cycles : two.1.cycles = one.1.cycles
  last : two.1.last.map Instruction.declared = one.1.last.map Instruction.declared
  out : two.2 = one.2

theorem pcAfter_congr {mem mem' : Memory} (size : mem'.size = mem.size) (regs : Registers) :
    pcAfter regs mem' = pcAfter regs mem := by
  simp only [pcAfter, Memory.wrap, size]

namespace Twins
variable {σ : Type} {cells : Set Nat} {one two : Machine × σ}

theorem mono {more : Set Nat} (twins : Twins cells one two) (subset : cells ⊆ more) :
    Twins more one two :=
  { twins with mem := twins.mem.mono subset }

theorem read (twins : Twins cells one two) (running : one.1.state = .running)
    (unread : ∀ x ∈ cells, x ∉ one.1.reads) :
    two.1.mem.read one.1.regs.pc = one.1.mem.read one.1.regs.pc := by
  by_cases inside : one.1.regs.pc.toNat < one.1.mem.size
  · rw [Memory.read_of_lt inside, Memory.read_of_lt (twins.mem.size ▸ inside),
      twins.mem.cell _ fun mem => unread _ mem (pc_mem_reads running inside)]
  · rw [Memory.read_of_not_lt inside, Memory.read_of_not_lt (twins.mem.size ▸ inside),
      twins.mem.size]

theorem instructionAt (twins : Twins cells one two) {opcode : Opcode}
    (running : one.1.state = .running) (read : one.1.mem.read one.1.regs.pc = .ok opcode.byte)
    (unread : ∀ x ∈ cells, x ∉ one.1.reads) :
    (two.1.instructionAt opcode).declared = (one.1.instructionAt opcode).declared := by
  have operand (k : Nat) (counts : k < opcode.operands) :
      two.1.mem.cell ((one.1.regs.pc.toNat + 1 + k) % one.1.mem.size) =
        one.1.mem.cell ((one.1.regs.pc.toNat + 1 + k) % one.1.mem.size) :=
    twins.mem.cell _ fun mem => unread _ mem (operand_mem_reads running read counts)
  rw [Machine.instructionAt, Machine.instructionAt, twins.regs, twins.mem.size]
  exact Instruction.declared_eq_iff.2 ⟨operand 0, operand 1⟩

theorem commit (twins : Twins cells one two) {written : Set Nat} {i j : Instruction}
    {done other : Effect} (same : j.declared = i.declared)
    (agree : done.AgreeOutside written other) (out : σ) :
    Twins written (one.1.commit i done, out) (two.1.commit j other, out) where
  regs := by simp only [Machine.commit, agree.regs, agree.flow, pcAfter_congr agree.mem.size]
  mem := agree.mem
  state := by simp only [Machine.commit, agree.flow, twins.state]
  cycles := congrArg (· + 1) twins.cycles
  last := congrArg some same
  out := rfl

theorem fault (twins : Twins cells one two) (out : σ) :
    Twins cells (one.1.fault, out) (two.1.fault, out) :=
  { twins with state := rfl, out := rfl }

theorem fetched (twins : Twins cells one two) (byte : UInt8) (out : σ) :
    Twins cells (one.1.fetched byte, out) (two.1.fetched byte, out) where
  regs := by simp only [Machine.fetched, twins.regs]
  mem := twins.mem
  state := twins.state
  cycles := twins.cycles
  last := twins.last
  out := rfl

end Twins

variable {σ : Type} [Sink σ]

def overwrites? (now : Machine × σ) : Option Nat :=
  match (now.1.step now.2).result with
  | .ok i => i.overwrites? now.1.regs now.1.mem
  | .error _ => none

def spared (cells : Set Nat) (now : Machine × σ) : Set Nat :=
  Memory.unwritten cells (overwrites? now)

variable {cells : Set Nat} {one two : Machine × σ}

theorem spared_of_ok {i : Instruction} {after : Machine} {written : σ}
    (succeeded : one.1.step one.2 = ⟨.ok i, after, written⟩) :
    spared cells one = Memory.unwritten cells (i.overwrites? one.1.regs one.1.mem) := by
  rw [spared, overwrites?, succeeded]

theorem spared_of_error {f : Fault} {after : Machine} {written : σ}
    (failed : one.1.step one.2 = ⟨.error f, after, written⟩) : spared cells one = cells := by
  rw [spared, overwrites?, failed, Memory.unwritten_none]

structure SameStep (cells : Set Nat) (one two : Machine × σ) : Prop where
  result : (two.1.step two.2).result.map Instruction.declared =
    (one.1.step one.2).result.map Instruction.declared
  after : Twins (spared cells one) (proceed one) (proceed two)

theorem sameStep_of_error {f : Fault} {after after' : Machine} {written : σ}
    (failed : one.1.step one.2 = ⟨.error f, after, written⟩)
    (failed' : two.1.step two.2 = ⟨.error f, after', written⟩)
    (twins : Twins cells (after, written) (after', written)) : SameStep cells one two where
  result := by rw [failed, failed']
  after := by
    rw [spared_of_error failed, proceed, proceed, failed, failed']
    exact twins

theorem sameStep_of_ok {i j : Instruction} {after after' : Machine} {written : σ}
    (succeeded : one.1.step one.2 = ⟨.ok i, after, written⟩)
    (succeeded' : two.1.step two.2 = ⟨.ok j, after', written⟩) (same : j.declared = i.declared)
    (twins : Twins (Memory.unwritten cells (i.overwrites? one.1.regs one.1.mem))
      (after, written) (after', written)) : SameStep cells one two where
  result := by rw [succeeded, succeeded']; exact congrArg Except.ok same
  after := by
    rw [spared_of_ok succeeded, proceed, proceed, succeeded, succeeded']
    exact twins

theorem sameStep (twins : Twins cells one two) (unread : ∀ x ∈ cells, x ∉ one.1.reads) :
    SameStep cells one two := by
  obtain ⟨m, out⟩ := one
  obtain ⟨other, written⟩ := two
  obtain rfl : written = out := twins.out
  by_cases running : m.state = .running
  · have step := step_of_running running written
    have step' := step_of_running (twins.state.trans running) written
    rw [twins.regs, twins.read running unread] at step'
    cases read : m.mem.read m.regs.pc with
    | error e =>
      rw [read] at step step'
      exact sameStep_of_error step step' (twins.fault _)
    | ok byte =>
      simp only [read] at step step'
      cases known : Opcode.ofByte? byte with
      | none =>
        rw [known] at step step'
        exact sameStep_of_error step step' ((twins.fetched byte written).fault written)
      | some opcode =>
        simp only [known] at step step'
        cases Opcode.ofByte?_eq_some_iff.1 known
        have declared : (other.instructionAt opcode).declared =
            (m.instructionAt opcode).declared := twins.instructionAt running read unread
        have fetched := twins.fetched opcode.byte written
        have regs : (other.fetched opcode.byte).regs = (m.fetched opcode.byte).regs := fetched.regs
        rw [regs, Instruction.perform_congr declared] at step'
        have popped (pops : opcode = .pop) (named : (m.instructionAt opcode).a.toNat < 8) :
            (m.fetched opcode.byte).regs.sp.toNat ∉ cells :=
          fun mem => unread _ mem (sp_mem_reads running read pops named)
        have carried := (m.instructionAt opcode).perform_agree twins.mem written popped
        rcases carried with ⟨f, after, performed, performed'⟩ |
          ⟨done, effect, after, performed, performed', agree⟩
        · rw [performed] at step
          rw [performed'] at step'
          exact sameStep_of_error step step' (fetched.fault after)
        · rw [performed] at step
          rw [performed'] at step'
          exact sameStep_of_ok step step' declared (twins.commit declared agree after)
  · have stopped : other.state ≠ .running := twins.state.trans_ne running
    have step := step_of_stopped running written
    have step' := step_of_stopped stopped written
    rw [twins.state] at step'
    exact sameStep_of_error step step' twins

def untouched (cells : Set Nat) (now : Machine × σ) (n : Nat) : Set Nat :=
  {x ∈ cells | ∀ j < n, overwrites? (now.1.after now.2 j) ≠ some x}

theorem untouched_succ (cells : Set Nat) (now : Machine × σ) (n : Nat) :
    untouched cells now (n + 1) = spared (untouched cells now n) (now.1.after now.2 n) := by
  ext x
  simp only [untouched, spared, Memory.unwritten, Set.mem_sep_iff, Nat.forall_lt_succ_right,
    and_assoc]

theorem twins_after (twins : Twins cells one two) {n : Nat}
    (unread : ∀ k < n, ∀ x ∈ untouched cells one k, x ∉ (one.1.after one.2 k).1.reads) :
    ∀ k ≤ n, Twins (untouched cells one k) (one.1.after one.2 k) (two.1.after two.2 k) := by
  intro k le
  induction k with
  | zero =>
    have all : untouched cells one 0 = cells := by simp [untouched]
    rw [all]
    exact twins
  | succ k ih =>
    rw [untouched_succ, after_succ, after_succ]
    exact (sameStep (ih (Nat.le_of_succ_le le)) (unread k le)).after

/-- What a cell holds is of no account to a run that does not read it before it is written
over: the steps have the same results, up to operands that do not count, and leave the same
machine behind but for that cell, and that cell too once it is written over. Operands that do
not count are of no account to any instruction. -/
theorem after_unread {m : Machine} {out : σ} {x n : Nat} {mem : Memory}
    (agree : m.mem.AgreeOutside {x} mem)
    (unread : ∀ k < n, (∀ j < k, overwrites? (m.after out j) ≠ some x) →
      x ∉ (m.after out k).1.reads) :
    let one (k : Nat) := m.after out k
    let two (k : Nat) := { m with mem }.after out k
    (∀ k < n, ((two k).1.step (two k).2).result.map Instruction.declared =
      ((one k).1.step (one k).2).result.map Instruction.declared) ∧
    (∀ k ≤ n, Twins {x} (one k) (two k) ∧
      ((∃ j < k, overwrites? (one j) = some x) → (two k).1.mem = (one k).1.mem)) ∧
    ∀ i j : Instruction, i.declared = j.declared → ∀ core : Core σ, i.run core = j.run core := by
  intro one two
  have twins : Twins {x} (m, out) ({ m with mem }, out) := ⟨rfl, agree, rfl, rfl, rfl, rfl⟩
  have unread : ∀ k < n, ∀ y ∈ untouched {x} (m, out) k, y ∉ (one k).1.reads := by
    rintro k less y ⟨rfl, never⟩
    exact unread k less never
  have same := twins_after twins unread
  refine ⟨fun k less => (sameStep (same k (Nat.le_of_lt less)) (unread k less)).result,
    fun k le => ⟨(same k le).mono fun _ mem => mem.1, ?_⟩,
    fun i j same core => Instruction.run_congr same core⟩
  rintro ⟨j, less, written⟩
  have none : untouched {x} (m, out) k = ∅ := by
    refine Set.eq_empty_of_forall_notMem ?_
    rintro y ⟨rfl, never⟩
    exact never j less written
  exact (none ▸ (same k le).mem).eq

/-- Eight cells with a program that pushes its last instruction, a halt, behind itself. -/
def completed (byte : UInt8) : Machine :=
  ⟨⟨#v[0, 0, 0, 0, 0, 0, 0, 5], 0, 0, 0⟩,
    ⟨#[0x78, 0, 0x4D, 0, byte, 0, 0, 0], show ValidSize 8 by decide⟩, .running, 0, none⟩

/-- The push reads the byte that it writes over as an operand that does not count. -/
theorem after_unread_completed :
    let one (k : Nat) := (completed 7).after (#[] : Array UInt8) k
    let two (k : Nat) := (completed 9).after (#[] : Array UInt8) k
    (one 2).1.last = some ⟨.push, 0, 7⟩ ∧ (two 2).1.last = some ⟨.push, 0, 9⟩ ∧
    (one 3).1.state = .halted ∧ Twins {4} (one 3) (two 3) ∧ (two 3).1.mem = (one 3).1.mem := by
  intro one two
  have agree : (completed 7).mem.AgreeOutside {4} (completed 9).mem := by
    refine ⟨rfl, fun address outside => ?_⟩
    match address with
    | 0 | 1 | 2 | 3 | 5 | 6 | 7 => rfl
    | 4 => exact absurd rfl outside
    | n + 8 => rfl
  have unread : ∀ k < 3, (∀ j < k, overwrites? (one j) ≠ some 4) → 4 ∉ (one k).1.reads := by
    decide
  obtain ⟨twins, mem⟩ := (after_unread agree unread).2.1 3 (Nat.le_refl 3)
  exact ⟨rfl, rfl, rfl, twins, mem ⟨1, by decide, rfl⟩⟩

end Machine

end ByteMachine
