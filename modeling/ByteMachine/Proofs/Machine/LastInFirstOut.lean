import ByteMachine.Proofs.Machine.Faults
import ByteMachine.Proofs.Machine.Sequence

/-! Pushes and then as many pops, in a memory that has a cell for each of them. A pushed value
stays in its cell until it is popped, since the pushes after it go to other cells, so the values
come back in the opposite order, and what is left of it all are the cells below the stack pointer
and the registers that were popped into. -/
namespace ByteMachine

structure Core.Frame {σ : Type} (core after : Core σ) (assigned : Register → Prop) : Prop where
  size : after.mem.size = core.mem.size
  general : ∀ r, ¬ assigned r → after.regs.get r = core.regs.get r
  pc : after.regs.pc = core.regs.pc
  ir : after.regs.ir = core.regs.ir
  fl : after.regs.fl = core.regs.fl
  out : after.out = core.out

theorem Core.Frame.refl {σ : Type} (core : Core σ) (assigned : Register → Prop) :
    core.Frame core assigned :=
  ⟨rfl, fun _ _ => rfl, rfl, rfl, rfl, rfl⟩

theorem Core.Frame.trans {σ : Type} {core middle after : Core σ} {p q assigned : Register → Prop}
    (first : core.Frame middle p) (second : middle.Frame after q)
    (within : ∀ r, p r ∨ q r → assigned r) : core.Frame after assigned where
  size := second.size.trans first.size
  general r spared := (second.general r fun later => spared (within r (.inr later))).trans
    (first.general r fun earlier => spared (within r (.inl earlier)))
  pc := second.pc.trans first.pc
  ir := second.ir.trans first.ir
  fl := second.fl.trans first.fl
  out := second.out.trans first.out

/-- The `n` cells below the stack pointer, around the start of memory. -/
def Core.Beneath {σ : Type} (core : Core σ) (n address : Nat) : Prop :=
  address < core.mem.size ∧
    ∃ distance, 1 ≤ distance ∧ distance ≤ n ∧
      (address + distance) % core.mem.size = core.regs.sp.toNat

namespace Instruction
variable {σ : Type} {core after : Core σ} {i : Instruction} {pushes pops : List Instruction}

def Pushes (i : Instruction) : Prop := i.opcode = .push ∧ i.a.toNat < 8

def Pops (i : Instruction) : Prop := i.opcode = .pop ∧ i.a.toNat < 7

section
variable {regs : Registers} {mem : Memory}

theorem below_lt (inside : regs.sp.toNat < mem.size) : below regs mem < mem.size := by
  rw [← toNat_prev_sp, mem.prev_toNat inside]
  exact Nat.mod_lt _ mem.size_pos

theorem below_succ (inside : regs.sp.toNat < mem.size) :
    (below regs mem + 1) % mem.size = regs.sp.toNat := by
  have pos := mem.size_pos
  have whole : regs.sp.toNat + mem.size - 1 + 1 = regs.sp.toNat + mem.size := by omega
  rw [← toNat_prev_sp, mem.prev_toNat inside, Nat.mod_add_mod, whole, Nat.add_mod_right,
    Nat.mod_eq_of_lt inside]

end

structure Pushed (core : Core σ) (i : Instruction) (after : Core σ) : Prop where
  frame : core.Frame after (· = .stackPointer)
  inside : after.regs.sp.toNat < core.mem.size
  sp : (after.regs.sp.toNat + 1) % core.mem.size = core.regs.sp.toNat
  cell : after.mem.cell after.regs.sp.toNat = core.regs.value i.a
  others : ∀ address ≠ after.regs.sp.toNat, after.mem.cell address = core.mem.cell address

theorem Pushed.beneath (pushed : Pushed core i after) {n address : Nat}
    (beneath : after.Beneath n address) : core.Beneath (n + 1) address := by
  obtain ⟨inside, distance, pos, le, place⟩ := beneath
  rw [pushed.frame.size] at inside place
  refine ⟨inside, distance + 1, by omega, by omega, ?_⟩
  rw [← Nat.add_assoc, ← Nat.mod_add_mod, place, pushed.sp]

theorem not_beneath {n : Nat} (room : n < core.mem.size) :
    ¬ core.Beneath n core.regs.sp.toNat := by
  rintro ⟨inside, distance, pos, le, place⟩
  by_cases around : core.regs.sp.toNat + distance < core.mem.size
  · rw [Nat.mod_eq_of_lt around] at place
    omega
  · rw [Nat.mod_eq_sub_mod (Nat.le_of_not_lt around), Nat.mod_eq_of_lt (by omega)] at place
    omega

variable [Sink σ]

theorem run_of_stack (moves : i.opcode = .push ∨ i.opcode = .pop) (named : i.a.toNat < 8)
    (inside : core.regs.sp.toNat < core.mem.size) :
    ∃ done : Effect, i.run core = (.ok .next, { core with regs := done.regs, mem := done.mem }) ∧
      done.Means i core.regs core.mem := by
  have silent : i.opcode ≠ .prn := by
    rintro prints
    simp [prints] at moves
  obtain ⟨done, effect⟩ : ∃ done, i.effect core.regs core.mem = .ok done := by
    obtain ⟨opcode, a, b⟩ := i
    refine effect_isOk (fun _ => named) (fun binary => ?_) (fun div => ?_) (fun _ => ?_)
      fun _ => inside
    · rcases moves with rfl | rfl <;> exact absurd binary (by decide)
    · rcases moves with rfl | rfl <;> exact absurd div (by decide)
    · exact toNat_prev_sp core.regs core.mem ▸ below_lt inside
  have means := means_of_effect effect
  have flow : done.flow = .next := by
    rw [means.flow]
    rcases moves with push | pop
    · simp [jumps, push]
    · simp [jumps, pop]
  refine ⟨done, ?_, means⟩
  rw [run_eq_settle silent, effect, settle, flow]

/-! ### Pushes -/

theorem run_push (push : i.Pushes) (inside : core.regs.sp.toNat < core.mem.size) :
    ∃ after, i.run core = (.ok .next, after) ∧ Pushed core i after := by
  obtain ⟨opcode, named⟩ := push
  obtain ⟨done, ran, means⟩ := run_of_stack (.inl opcode) named inside
  have sp : done.regs.sp.toNat = below core.regs core.mem := by
    have moved := means.registers .stackPointer
    simp only [registerAfter, opcode, if_true] at moved
    exact Int.ofNat_inj.1 moved
  have cells (address : Nat) : done.mem.cell address =
      if address = done.regs.sp.toNat then core.regs.value i.a else core.mem.cell address := by
    rw [means.cells, cellAfter, sp]
    simp only [opcode, true_and]
  refine ⟨_, ran, ⟨means.size, fun r other => ?_, means.pc, means.ir, ?_, rfl⟩, ?_, ?_, ?_, ?_⟩
  · have kept := means.registers r
    simp only [registerAfter, opcode, if_neg other] at kept
    exact UInt8.toNat_inj.1 (Int.ofNat_inj.1 kept)
  · have kept := means.flags
    simp only [flagsAfter, opcode] at kept
    exact UInt8.toNat_inj.1 kept
  · exact sp ▸ below_lt inside
  · exact sp ▸ below_succ inside
  · exact (cells _).trans (if_pos rfl)
  · exact fun address other => (cells address).trans (if_neg other)

/-- What pushes come to: each value in the cell from which as many pops will read it. -/
structure Stacked (core : Core σ) (pushes : List Instruction) (after : Core σ) : Prop where
  frame : core.Frame after (· = .stackPointer)
  inside : after.regs.sp.toNat < core.mem.size
  sp : (after.regs.sp.toNat + pushes.length) % core.mem.size = core.regs.sp.toNat
  held : ∀ k i, pushes[k]? = some i →
    after.mem.cell ((after.regs.sp.toNat + (pushes.length - 1 - k)) % core.mem.size) =
      (runAll (pushes.take k) core).2.regs.value i.a
  others : ∀ address, ¬ core.Beneath pushes.length address →
    after.mem.cell address = core.mem.cell address

theorem runAll_pushes (pushing : ∀ i ∈ pushes, i.Pushes)
    (inside : core.regs.sp.toNat < core.mem.size) (room : pushes.length ≤ core.mem.size) :
    ∃ after, runAll pushes core = (.ok (), after) ∧ Stacked core pushes after := by
  induction pushes generalizing core with
  | nil =>
    refine ⟨core, rfl, .refl core _, inside, ?_, ?_, fun _ _ => rfl⟩
    · exact Nat.mod_eq_of_lt inside
    · rintro k i ⟨⟩
  | cons i rest ih =>
    obtain ⟨push, pushing⟩ := List.forall_mem_cons.1 pushing
    obtain ⟨now, ran, pushed⟩ := run_push push inside
    have size := pushed.frame.size
    rw [List.length_cons] at room
    have still : now.regs.sp.toNat < now.mem.size := size ▸ pushed.inside
    obtain ⟨after, done, stacked⟩ := ih pushing still (by omega)
    have sp := stacked.sp
    rw [size] at sp
    refine ⟨after, (runAll_cons ran rest).trans done,
      pushed.frame.trans stacked.frame fun r => Or.rec id id, ?_, ?_, fun k j found => ?_,
      fun address outside => ?_⟩
    · exact size ▸ stacked.inside
    · rw [List.length_cons, ← Nat.add_assoc, ← Nat.mod_add_mod, sp, pushed.sp]
    · cases k with
      | zero =>
        cases found
        have last : (i :: rest).length - 1 - 0 = rest.length := by simp
        rw [last, sp, stacked.others _ (not_beneath (by omega)), pushed.cell]
        rfl
      | succ k =>
        have held := stacked.held k j found
        have behind : (i :: rest).length - 1 - (k + 1) = rest.length - 1 - k := by
          rw [List.length_cons]
          omega
        rw [size] at held
        rw [behind, held, List.take_succ_cons, runAll_cons ran]
    · have other : address ≠ now.regs.sp.toNat := by
        rintro rfl
        exact outside ⟨pushed.inside, 1, Nat.le_refl 1, by simp, pushed.sp⟩
      rw [stacked.others address fun beneath => outside (pushed.beneath beneath),
        pushed.others address other]

/-! ### Pops -/

structure Popped (core : Core σ) (i : Instruction) (after : Core σ) : Prop where
  frame : core.Frame after fun r => r = .stackPointer ∨ r.val = i.a.toNat
  sp : after.regs.sp.toNat = (core.regs.sp.toNat + 1) % core.mem.size
  taken : after.regs.value i.a = core.mem.cell core.regs.sp.toNat
  cells : ∀ address, after.mem.cell address = core.mem.cell address

theorem run_pop (pop : i.Pops) (inside : core.regs.sp.toNat < core.mem.size) :
    ∃ after, i.run core = (.ok .next, after) ∧ Popped core i after := by
  obtain ⟨opcode, named⟩ := pop
  obtain ⟨done, ran, means⟩ := run_of_stack (.inr opcode) (by omega) inside
  have registers (r : Register) : ((done.regs.get r).toNat : Int) =
      if r.val = i.a.toNat then ((core.mem.cell core.regs.sp.toNat).toNat : Int)
      else if r = .stackPointer then (above core.regs core.mem : Int)
      else (core.regs.get r).toNat := by
    have after := means.registers r
    simpa only [registerAfter, opcode] using after
  refine ⟨_, ran, ⟨means.size, fun r other => ?_, means.pc, means.ir, ?_, rfl⟩, ?_, ?_, ?_⟩
  · rw [not_or] at other
    have kept := registers r
    rw [if_neg other.2, if_neg other.1] at kept
    exact UInt8.toNat_inj.1 (Int.ofNat_inj.1 kept)
  · have kept := means.flags
    simp only [flagsAfter, opcode] at kept
    exact UInt8.toNat_inj.1 kept
  · have other : Register.stackPointer.val ≠ i.a.toNat := by
      rintro same
      rw [← same] at named
      exact absurd named (by decide)
    have moved := registers .stackPointer
    rw [if_neg other, if_pos rfl] at moved
    rw [← core.mem.next_toNat inside, toNat_next_sp inside]
    exact Int.ofNat_inj.1 moved
  · have lt : i.a.toNat < 8 := by omega
    have taken := registers ⟨i.a.toNat, lt⟩
    rw [if_pos rfl] at taken
    rw [Registers.value_eq_get _ (rfl : (⟨i.a.toNat, lt⟩ : Register).val = i.a.toNat)]
    exact UInt8.toNat_inj.1 (Int.ofNat_inj.1 taken)
  · intro address
    have kept := means.cells address
    simpa [cellAfter, opcode] using kept

structure Unstacked (core : Core σ) (pops : List Instruction) (after : Core σ) : Prop where
  frame : core.Frame after fun r => r = .stackPointer ∨ ∃ i ∈ pops, r.val = i.a.toNat
  sp : after.regs.sp.toNat = (core.regs.sp.toNat + pops.length) % core.mem.size
  taken : ∀ j i, pops[j]? = some i → (runAll (pops.take (j + 1)) core).2.regs.value i.a =
    core.mem.cell ((core.regs.sp.toNat + j) % core.mem.size)
  cells : ∀ address, after.mem.cell address = core.mem.cell address

theorem runAll_pops (popping : ∀ i ∈ pops, i.Pops)
    (inside : core.regs.sp.toNat < core.mem.size) :
    ∃ after, runAll pops core = (.ok (), after) ∧ Unstacked core pops after := by
  induction pops generalizing core with
  | nil =>
    refine ⟨core, rfl, .refl core _, ?_, ?_, fun _ => rfl⟩
    · exact (Nat.mod_eq_of_lt inside).symm
    · rintro j i ⟨⟩
  | cons i rest ih =>
    obtain ⟨pop, popping⟩ := List.forall_mem_cons.1 popping
    obtain ⟨now, ran, popped⟩ := run_pop pop inside
    have size := popped.frame.size
    have still : now.regs.sp.toNat < now.mem.size := by
      rw [popped.sp, size]
      exact Nat.mod_lt _ core.mem.size_pos
    obtain ⟨after, done, unstacked⟩ := ih popping still
    have within (r : Register) : (r = .stackPointer ∨ r.val = i.a.toNat) ∨
        (r = .stackPointer ∨ ∃ j ∈ rest, r.val = j.a.toNat) →
        r = .stackPointer ∨ ∃ j ∈ i :: rest, r.val = j.a.toNat := by
      rintro ((pointer | here) | (pointer | ⟨j, mem, there⟩))
      · exact .inl pointer
      · exact .inr ⟨i, List.mem_cons_self, here⟩
      · exact .inl pointer
      · exact .inr ⟨j, List.mem_cons_of_mem _ mem, there⟩
    refine ⟨after, (runAll_cons ran rest).trans done, popped.frame.trans unstacked.frame within,
      ?_, fun j k found => ?_, fun address => ?_⟩
    · rw [unstacked.sp, popped.sp, size, Nat.mod_add_mod, List.length_cons, Nat.add_assoc,
        Nat.add_comm 1]
    · cases j with
      | zero =>
        cases found
        rw [List.take_succ_cons, List.take_zero, runAll_cons ran, Nat.add_zero,
          Nat.mod_eq_of_lt inside]
        exact popped.taken
      | succ j =>
        have taken := unstacked.taken j k found
        rw [popped.sp, popped.cells, size, Nat.mod_add_mod, Nat.add_assoc,
          Nat.add_comm 1] at taken
        rw [List.take_succ_cons, runAll_cons ran, taken]
    · rw [unstacked.cells, popped.cells]

/-! ### Both -/

/-- As many pushes as memory has cells at most, and then as many pops, all succeed: the first pop
takes the value that was pushed last, as the source register had it then, and so on. The stack
pointer comes back to where it was, and nothing else is changed but the cells below it and the
registers that were popped into. -/
theorem last_in_first_out (core : Core σ) (inside : core.regs.sp.toNat < core.mem.size)
    (room : pushes.length ≤ core.mem.size) (paired : pops.length = pushes.length)
    (pushing : ∀ i ∈ pushes, i.Pushes) (popping : ∀ i ∈ pops, i.Pops) :
    ∃ finish, runAll (pushes ++ pops) core = (.ok (), finish) ∧
      (∀ j source destination, pushes[pushes.length - 1 - j]? = some source →
        pops[j]? = some destination →
          (runAll (pushes ++ pops.take (j + 1)) core).2.regs.value destination.a =
            (runAll (pushes.take (pushes.length - 1 - j)) core).2.regs.value source.a) ∧
      finish.regs.sp = core.regs.sp ∧
      (∀ address, ¬ core.Beneath pushes.length address →
        finish.mem.cell address = core.mem.cell address) ∧
      core.Frame finish fun r => r = .stackPointer ∨ ∃ i ∈ pops, r.val = i.a.toNat := by
  obtain ⟨middle, pushed, stacked⟩ := runAll_pushes pushing inside room
  have size := stacked.frame.size
  have still : middle.regs.sp.toNat < middle.mem.size := size ▸ stacked.inside
  obtain ⟨finish, popped, unstacked⟩ := runAll_pops popping still
  refine ⟨finish, (runAll_append pushed pops).trans popped, ?_, ?_, ?_, ?_⟩
  · intro j source destination last first
    have behind : j < pops.length := (List.getElem?_eq_some_iff.1 first).1
    have depth : pushes.length - 1 - (pushes.length - 1 - j) = j := by omega
    have held := stacked.held _ source last
    rw [depth] at held
    rw [runAll_append pushed, unstacked.taken j destination first, size, held]
  · refine UInt8.toNat_inj.1 ?_
    rw [unstacked.sp, size, paired, stacked.sp]
  · intro address outside
    rw [unstacked.cells, stacked.others address outside]
  · exact stacked.frame.trans unstacked.frame fun r => Or.rec .inl id

def fourCells : Core (Array UInt8) :=
  ⟨⟨#v[10, 11, 12, 13, 14, 15, 16, 1], 0, 0, 5⟩, ⟨#[96, 97, 98, 99], by decide⟩, #[]⟩

/-- The stack pointer is pushed as it is before it moves, and the second pop into R0 wins. -/
theorem last_in_first_out_fourCells :
    let pushes : List Instruction := [⟨.push, 7, 1⟩, ⟨.push, 2, 0⟩, ⟨.push, 7, 9⟩, ⟨.push, 3, 0⟩]
    let pops : List Instruction := [⟨.pop, 0, 0⟩, ⟨.pop, 0, 200⟩, ⟨.pop, 1, 0⟩, ⟨.pop, 6, 0⟩]
    (∀ i ∈ pushes, i.Pushes) ∧ (∀ i ∈ pops, i.Pops) ∧
    runAll (pushes ++ pops) fourCells =
      (.ok (), ⟨⟨#v[3, 12, 12, 13, 14, 15, 1, 1], 0, 0, 5⟩, ⟨#[1, 13, 3, 12], by decide⟩, #[]⟩) ∧
    (runAll (pushes ++ pops.take 2) fourCells).2.regs.value 0 =
      (runAll (pushes.take 2) fourCells).2.regs.value 7 := by
  intro pushes pops
  have pushing : ∀ i ∈ pushes, i.Pushes := by simp [pushes, Pushes]
  have popping : ∀ i ∈ pops, i.Pops := by simp [pops, Pops]
  have room : pushes.length ≤ fourCells.mem.size := by decide
  have paired : pops.length = pushes.length := rfl
  obtain ⟨-, -, values, -⟩ := last_in_first_out fourCells (by decide) room paired pushing popping
  exact ⟨pushing, popping, rfl, values 1 ⟨.push, 7, 9⟩ ⟨.pop, 0, 200⟩ rfl rfl⟩

end Instruction

end ByteMachine
