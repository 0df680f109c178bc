import ByteMachine.Proofs.Listing.Current
import ByteMachine.Proofs.Machine.Lifecycle
import ByteMachine.Proofs.Machine.Printing
import ByteMachine.Proofs.Machine.Sequence
import ByteMachine.Proofs.Machine.Unread

/-! Programs without branches. As long as such a program succeeds, does not halt and does not
push over its own bytes, the machine is at its instructions one after the other and does to the
registers, the memory and the sink what the instructions do without it. -/
namespace ByteMachine

namespace Instruction

def offset (program : List Instruction) (k : Nat) : Nat :=
  ((program.take k).flatMap encode).length

section
variable {program : List Instruction} {k : Nat} {i : Instruction}

theorem split_at (found : program[k]? = some i) :
    program = program.take k ++ i :: program.drop (k + 1) := by
  obtain ⟨inside, rfl⟩ := List.getElem?_eq_some_iff.1 found
  rw [← List.drop_eq_getElem_cons inside, List.take_append_drop]

theorem take_succ_of_found (found : program[k]? = some i) :
    program.take (k + 1) = program.take k ++ [i] := by
  rw [List.take_add_one, found, Option.toList_some]

theorem offset_succ (found : program[k]? = some i) :
    offset program (k + 1) = offset program k + i.opcode.size := by
  rw [offset, take_succ_of_found found, List.flatMap_append, List.length_append,
    List.flatMap_singleton, length_encode, offset]

theorem flatMap_encode_at (found : program[k]? = some i) : program.flatMap encode =
    (program.take k).flatMap encode ++ (i.encode ++ (program.drop (k + 1)).flatMap encode) := by
  conv_lhs => rw [split_at found, List.flatMap_append, List.flatMap_cons]

theorem offset_add_le (found : program[k]? = some i) :
    offset program k + i.opcode.size ≤ (program.flatMap encode).length := by
  rw [flatMap_encode_at found, List.length_append, List.length_append, length_encode, offset]
  omega

theorem getD_flatMap_encode (found : program[k]? = some i) {d : Nat} (own : d < i.opcode.size) :
    (program.flatMap encode).getD (offset program k + d) 0 = i.encode.getD d 0 := by
  rw [flatMap_encode_at found, offset, List.getD_append_right _ _ _ _ (Nat.le_add_right _ d),
    Nat.add_sub_cancel_left, List.getD_append _ _ _ _ (i.length_encode ▸ own)]

theorem getD_encode (i : Instruction) {d : Nat} (own : d < i.opcode.size) :
    i.encode.getD d 0 = [i.opcode.byte, i.a, i.b].getD d 0 := by
  rw [encode, List.getD_eq_getElem?_getD, List.getElem?_take_of_lt own,
    List.getD_eq_getElem?_getD]

end

theorem jumps_of_straight (i : Instruction) (regs : Registers)
    (straight : i.opcode.isBranch = false) : i.jumps regs = false := by
  obtain ⟨opcode, a, b⟩ := i
  cases opcode with
  | jmp | jeq | jne => cases straight
  | _ => rfl

end Instruction

namespace Machine
open Instruction (encode offset runAll)
variable {σ : Type} {m : Machine} {i : Instruction} {core : Core σ}

/-- That an instruction is the next one to be carried out: its opcode byte is at the program
counter, and what is decoded there is the instruction as far as it counts. -/
def Attempts (m : Machine) (i : Instruction) : Prop :=
  m.state = .running ∧ m.mem.read m.regs.pc = .ok i.opcode.byte ∧
    (m.decode i.opcode.byte).map Instruction.declared = .ok i.declared

theorem Attempts.declared (attempts : m.Attempts i) :
    (m.instructionAt i.opcode).declared = i.declared := by
  obtain ⟨-, -, decoded⟩ := attempts
  rw [decode_eq, Opcode.ofByte?_byte] at decoded
  exact Except.ok.inj decoded

theorem attempts_of_cells (running : m.state = .running)
    (inside : m.regs.pc.toNat + i.opcode.size ≤ m.mem.size)
    (code : ∀ d < i.opcode.size, m.mem.cell (m.regs.pc.toNat + d) = i.encode.getD d 0) :
    m.Attempts i := by
  have first := code 0 i.opcode.size_pos
  have operand (d : Nat) (counts : d < i.opcode.operands) :
      m.mem.cell ((m.regs.pc.toNat + (d + 1)) % m.mem.size) = [i.a, i.b].getD d 0 := by
    have own : d + 1 < i.opcode.size := Nat.succ_lt_succ counts
    rw [Nat.mod_eq_of_lt (by omega), code _ own, Instruction.getD_encode i own]
    rfl
  refine ⟨running, Memory.read_eq_ok_iff.2 ⟨?_, ?_⟩, ?_⟩
  · have pos := i.opcode.size_pos
    omega
  · rw [← Nat.add_zero m.regs.pc.toNat, first, Instruction.getD_encode i i.opcode.size_pos]
    rfl
  · rw [decode_eq, Opcode.ofByte?_byte]
    exact congrArg Except.ok (Instruction.declared_eq_iff.2 ⟨operand 0, operand 1⟩)

structure Carries (now : Machine × σ) (core : Core σ) : Prop where
  general : ∀ r, now.1.regs.get r = core.regs.get r
  fl : now.1.regs.fl = core.regs.fl
  mem : now.1.mem = core.mem
  out : now.2 = core.out

theorem Carries.fetched {now : Machine × σ} (carries : Carries now core) (byte : UInt8) :
    (now.1.fetched byte).regs = core.regs.fetching now.1.regs.pc byte :=
  Registers.ext_get rfl rfl carries.fl carries.general

variable [Sink σ] {now : Machine × σ}

theorem Attempts.step (attempts : m.Attempts i) (out : σ) : m.step out =
    match i.perform (m.fetched i.opcode.byte).regs m.mem out with
    | (.error f, out) => ⟨.error f, (m.fetched i.opcode.byte).fault, out⟩
    | (.ok done, out) =>
      ⟨.ok (m.instructionAt i.opcode), m.commit (m.instructionAt i.opcode) done, out⟩ := by
  have step := step_of_opcode attempts.1 attempts.2.1 out
  rw [Instruction.perform_congr attempts.declared] at step
  exact step

theorem Attempts.eq_of_ok {attempted : Instruction} {out : σ} (attempts : m.Attempts i)
    (succeeded : (m.step out).result = .ok attempted) : attempted = m.instructionAt i.opcode := by
  rw [attempts.step] at succeeded
  rcases performed : i.perform (m.fetched i.opcode.byte).regs m.mem out with ⟨f | done, written⟩
  · rw [performed] at succeeded
    cases succeeded
  · rw [performed] at succeeded
    exact (Except.ok.inj succeeded).symm

theorem Carries.step (carries : Carries now core) (attempts : now.1.Attempts i) :
    Except.error? (now.1.step now.2).result = Except.error? (i.run core).1 ∧
      Carries (proceed now) (i.run core).2 ∧ (proceed now).1.regs.ir = i.opcode.byte := by
  have step := attempts.step now.2
  rw [carries.fetched, carries.mem, carries.out, Instruction.perform_fetching] at step
  rw [proceed, carries.out, step, Instruction.run_eq_perform]
  rcases performed : i.perform core.regs core.mem core.out with ⟨f | done, written⟩
  · exact ⟨rfl, ⟨carries.general, carries.fl, carries.mem, rfl⟩, rfl⟩
  · exact ⟨rfl, ⟨fun _ => rfl, rfl, rfl, rfl⟩, rfl⟩

def GoesOn (cells : Nat) (now : Machine × σ) : Prop :=
  ∃ i, (now.1.step now.2).result = .ok i ∧ i.opcode ≠ .hlt ∧
    ∀ address, overwrites? now = some address → cells ≤ address

/-- What there is after so many steps of a program: the machine is behind as many instructions,
and what they have made of a core is what it holds. -/
structure InOrder (program : List Instruction) (start : Core σ) (k : Nat) (now : Machine × σ) :
    Prop where
  running : now.1.state = .running
  size : now.1.mem.size = start.mem.size
  pc : now.1.regs.pc.toNat = offset program k % start.mem.size
  code : ∀ address < (program.flatMap encode).length,
    now.1.mem.cell address = (program.flatMap encode).getD address 0
  done : (runAll (program.take k) start).1 = .ok ()
  carries : Carries now (runAll (program.take k) start).2

namespace InOrder
variable {program : List Instruction} {start : Core σ} {k : Nat}

theorem pc_eq (inOrder : InOrder program start k now) (found : program[k]? = some i)
    (fits : (program.flatMap encode).length ≤ start.mem.size) :
    now.1.regs.pc.toNat = offset program k := by
  have le := Instruction.offset_add_le found
  have pos := i.opcode.size_pos
  rw [inOrder.pc, Nat.mod_eq_of_lt (by omega)]

theorem attempts (inOrder : InOrder program start k now) (found : program[k]? = some i)
    (fits : (program.flatMap encode).length ≤ start.mem.size) :
    now.1.Attempts i := by
  have le := Instruction.offset_add_le found
  have pc := inOrder.pc_eq found fits
  refine attempts_of_cells inOrder.running ?_ fun d own => ?_
  · rw [pc, inOrder.size]
    omega
  · rw [pc, inOrder.code _ (by omega), Instruction.getD_flatMap_encode found own]

theorem runAll_take_succ (inOrder : InOrder program start k now) (found : program[k]? = some i) :
    runAll (program.take (k + 1)) start =
      ((i.run (runAll (program.take k) start).2).1.map fun _ => (),
        (i.run (runAll (program.take k) start).2).2) := by
  rw [Instruction.take_succ_of_found found]
  exact Instruction.runAll_concat (Prod.ext inOrder.done rfl) i

theorem proceed (inOrder : InOrder program start k now) (found : program[k]? = some i)
    (fits : (program.flatMap encode).length ≤ start.mem.size)
    (straight : i.opcode.isBranch = false)
    (goesOn : GoesOn (program.flatMap encode).length now) :
    InOrder program start (k + 1) (proceed now) := by
  have attempts := inOrder.attempts found fits
  obtain ⟨same, carries, -⟩ := inOrder.carries.step attempts
  obtain ⟨attempted, succeeded, goes, spares⟩ := goesOn
  have opcode : attempted.opcode = i.opcode := by rw [attempts.eq_of_ok succeeded]; rfl
  have executed : now.1.Executed now.2 attempted (Machine.proceed now).1 (Machine.proceed now).2 :=
    executed_of_step (by rw [Machine.proceed, ← succeeded])
  have along := attempted.jumps_of_straight now.1.regs (opcode ▸ straight)
  have ran := inOrder.runAll_take_succ found
  refine ⟨?_, executed.size.trans inOrder.size, ?_, fun address own => ?_, ?_, ?_⟩
  · rw [executed.state, if_neg goes]
  · rw [executed.pc, Instruction.pcAfter, along, if_neg Bool.false_ne_true, inOrder.size,
      inOrder.pc_eq found fits, Instruction.offset_succ found, opcode, Opcode.size, Nat.add_assoc,
      Nat.add_comm 1]
  · have kept : ¬ (attempted.opcode = .push ∧
        address = Instruction.below now.1.regs now.1.mem) := by
      rintro ⟨pushes, rfl⟩
      have overwritten : overwrites? now = some (Instruction.below now.1.regs now.1.mem) := by
        rw [overwrites?, succeeded]
        exact if_pos pushes
      exact Nat.not_lt.2 (spares _ overwritten) own
    rw [executed.cells, Instruction.cellAfter, if_neg kept, inOrder.code address own]
  · rw [ran]
    rcases done : i.run (runAll (program.take k) start).2 with ⟨f | flow, core⟩
    · rw [succeeded, done] at same
      cases same
    · rfl
  · rw [ran]
    exact carries

end InOrder

theorem inOrder_load {mem : Memory} {program : List Instruction}
    (loaded : (powerOn mem).load (program.flatMap encode) = (.ok (), m)) (out : σ) :
    m.mem.size = mem.size ∧ InOrder program ⟨m.regs, m.mem, out⟩ 0 (m, out) := by
  obtain ⟨same, size, contents⟩ := eq_powerOn_of_load loaded
  have state : m.state = .running := congrArg Machine.state same
  have pc : m.regs.pc = 0 := (congrArg (·.regs.pc) same).trans (regs_powerOn m.mem).1
  refine ⟨size, state, rfl, ?_, fun address own => ?_, rfl, fun _ => rfl, rfl, rfl, rfl⟩
  · rw [pc, offset, List.take_zero, List.flatMap_nil, List.length_nil, Nat.zero_mod]
    rfl
  · rw [Memory.cell_eq_getD, contents, List.getD_append _ _ _ _ own]

/-- A program without branches that fits into memory is carried out in order. As long as its
instructions have succeeded, have not halted and have not pushed over a byte of the program, the
machine is at the next of them and attempts it, and the registers, the flags, all of memory, the
sink and the fault, if any, are those of the instructions carried out on their own. -/
theorem straight_line (mem : Memory) (out : σ) {program : List Instruction}
    (straight : ∀ i ∈ program, i.opcode.isBranch = false)
    (fits : (program.flatMap encode).length ≤ mem.size) :
    ∃ m, (powerOn mem).load (program.flatMap encode) = (.ok (), m) ∧
      ∀ k i, program[k]? = some i →
        (∀ j < k, GoesOn (program.flatMap encode).length (m.after out j)) →
        let now := m.after out k
        let next := m.after out (k + 1)
        let ran (n : Nat) := runAll (program.take n) ⟨m.regs, m.mem, out⟩
        now.1.regs.pc.toNat = ((program.take k).flatMap encode).length ∧
        now.1.Attempts i ∧ Carries now (ran k).2 ∧
        (∀ done, (now.1.step now.2).result = .ok done → done.declared = i.declared) ∧
        Except.error? (now.1.step now.2).result = Except.error? (ran (k + 1)).1 ∧
        Carries next (ran (k + 1)).2 ∧ next.1.regs.ir = i.opcode.byte := by
  obtain ⟨m, loaded⟩ := ((powerOn mem).load_isOk_iff _).2 fits
  obtain ⟨size, start⟩ := inOrder_load loaded out
  rw [← size] at fits
  refine ⟨m, loaded, fun k i found goesOn => ?_⟩
  have inOrder : ∀ n ≤ k, InOrder program ⟨m.regs, m.mem, out⟩ n (m.after out n) := by
    intro n le
    induction n with
    | zero => exact start
    | succ n ih =>
      have inside : n < program.length := Nat.lt_trans le (List.getElem?_eq_some_iff.1 found).1
      have found : program[n]? = some program[n] := List.getElem?_eq_getElem inside
      rw [after_succ]
      exact (ih (Nat.le_of_lt le)).proceed found fits (straight _ (List.getElem_mem inside))
        (goesOn n le)
  intro now next ran
  have here : InOrder program _ k now := inOrder k (Nat.le_refl k)
  have attempts := here.attempts found fits
  have ran_succ : ran (k + 1) = _ := here.runAll_take_succ found
  obtain ⟨same, carries, ir⟩ := here.carries.step attempts
  have next_eq : next = proceed now := after_succ _ out k
  refine ⟨here.pc_eq found fits, attempts, here.carries, fun done succeeded => ?_, ?_, ?_, ?_⟩
  · rw [attempts.eq_of_ok succeeded, attempts.declared]
  · rw [same, ran_succ]
    rcases i.run (ran k).2 with ⟨f | flow, core⟩ <;> rfl
  · rw [next_eq, ran_succ]
    exact carries
  · rw [next_eq, ir]

def printingEight : Machine :=
  ⟨.forMemory 8, ⟨#[0x99, 0, 7, 0x78, 0, 0x43, 0, 1], by decide⟩, .running, 0, none⟩

/-- The halt is in the last cell, so the operands that do not count are from the first two. -/
theorem straight_line_printingEight :
    let program : List Instruction := [⟨.ldi, 0, 7⟩, ⟨.inc, 0, 0⟩, ⟨.prn, 0, 0⟩, ⟨.hlt, 0, 0⟩]
    let finish := (runAll program ⟨printingEight.regs, printingEight.mem, (#[] : Array UInt8)⟩).2
    (∀ i ∈ program, i.opcode.isBranch = false) ∧ (program.flatMap encode).length ≤ 8 ∧
    (∀ j < 3, GoesOn 8 (printingEight.after (#[] : Array UInt8) j)) ∧
    (printingEight.after (#[] : Array UInt8) 3).1.Attempts ⟨.hlt, 0, 0⟩ ∧
    (printingEight.after (#[] : Array UInt8) 4).1.last = some ⟨.hlt, 0x99, 0⟩ ∧
    Carries (printingEight.after (#[] : Array UInt8) 4) finish ∧ finish.out = #[8] := by
  intro program finish
  have straight : ∀ i ∈ program, i.opcode.isBranch = false := by decide
  have fits : (program.flatMap encode).length ≤ 8 := by decide
  have goesOn : ∀ j < 3, GoesOn 8 (printingEight.after (#[] : Array UInt8) j) := by
    intro j less
    match j with
    | 0 => exact ⟨⟨.ldi, 0, 7⟩, rfl, by decide, nofun⟩
    | 1 => exact ⟨⟨.inc, 0, 0x43⟩, rfl, by decide, nofun⟩
    | 2 => exact ⟨⟨.prn, 0, 1⟩, rfl, by decide, nofun⟩
  obtain ⟨m, loaded, steps⟩ :=
    straight_line (.zeros 8 (by decide)) (#[] : Array UInt8) straight fits
  obtain rfl : printingEight = m := congrArg Prod.snd loaded
  obtain ⟨-, attempts, -, -, -, carries, -⟩ := steps 3 ⟨.hlt, 0, 0⟩ rfl goesOn
  exact ⟨straight, fits, goesOn, attempts, rfl, carries, rfl⟩

end Machine

end ByteMachine
