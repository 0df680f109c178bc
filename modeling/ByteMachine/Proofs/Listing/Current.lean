import ByteMachine.Proofs.Debugger.Listing
import ByteMachine.Proofs.Machine.Step
import ByteMachine.Proofs.Memory
import ByteMachine.Session

/-! The instruction at the program counter as it is listed and as it is executed. A listing
ends with the last cell and shows operands behind it as zero, where the machine goes on at
the first cell; the two texts are the same exactly if such operands are zero. -/
namespace ByteMachine

namespace Instruction
open Text

theorem decimal_injective {m n : Nat} (same : decimal m = decimal n) : m = n := by
  rw [decimal_eq_padded, decimal_eq_padded] at same
  exact padded_injective (by decide) (by decide) same

theorem decimal_toNat_inj {a b : UInt8} : decimal a.toNat = decimal b.toNat ↔ a = b :=
  ⟨fun same => UInt8.toNat_inj.1 (decimal_injective same), fun same => same ▸ rfl⟩

theorem registerSource_inj {a b : UInt8} : registerSource a = registerSource b ↔ a = b := by
  rw [registerSource, registerSource, List.cons_inj_right, decimal_toNat_inj]

theorem secondSource_inj {op : Opcode} {a a' b b' : UInt8} :
    secondSource ⟨op, a, b⟩ = secondSource ⟨op, a', b'⟩ ↔ b = b' := by
  simp only [secondSource]
  split
  · exact decimal_toNat_inj
  · exact registerSource_inj

theorem pair_inj {s s' t t' : List Char} (word : Word s) (word' : Word s') :
    s ++ ',' :: t = s' ++ ',' :: t' ↔ s = s' ∧ t = t' := by
  constructor
  · intro same
    have heads := congrArg (fields ',') same
    rw [fields_append (word.not_mem rfl), fields_append (word'.not_mem rfl)] at heads
    obtain rfl := (List.cons.inj heads).1
    exact ⟨rfl, (List.cons.inj (List.append_cancel_left same)).2⟩
  · rintro ⟨rfl, rfl⟩
    rfl

theorem text_inj {op : Opcode} {a a' b b' : UInt8} :
    text ⟨op, a, b⟩ = text ⟨op, a', b'⟩ ↔
      (1 ≤ op.operands → a = a') ∧ (2 ≤ op.operands → b = b') := by
  rw [text, text, String.ofList_inj, source, source, List.append_cancel_left_eq]
  have few := op.operands_le
  obtain count | count | count : op.operands = 0 ∨ op.operands = 1 ∨ op.operands = 2 := by omega
  · simp [operandSource, count]
  · simp [operandSource, count, registerSource_inj]
  · have second : secondSource ⟨op, a, b⟩ = secondSource ⟨op, a', b'⟩ ↔ b = b' := secondSource_inj
    have pair : registerSource a ++ ',' :: ' ' :: secondSource ⟨op, a, b⟩ =
        registerSource a' ++ ',' :: ' ' :: secondSource ⟨op, a', b'⟩ ↔ _ :=
      pair_inj (word_registerSource a) (word_registerSource a')
    rw [registerSource_inj, List.cons_inj_right, second] at pair
    simpa [operandSource, count, secondSource] using pair

end Instruction

namespace Machine

def listedAt (m : Machine) (opcode : Opcode) : Instruction :=
  ⟨opcode, m.mem.cell (m.regs.pc.toNat + 1), m.mem.cell (m.regs.pc.toNat + 2)⟩

theorem first_eq_listedAt {m : Machine} {opcode : Opcode}
    (read : m.mem.read m.regs.pc = .ok opcode.byte) :
    Item.first (m.mem.toList.drop m.regs.pc.toNat) = .instruction (m.listedAt opcode) := by
  obtain ⟨inside, byte⟩ := Memory.read_eq_ok_iff.1 read
  rw [Memory.drop_toList inside, byte, Item.first_of_opcode (Opcode.ofByte?_byte opcode),
    Memory.getD_drop, Memory.getD_drop]
  rfl

/-- A cell and the one its address is wrapped to are the same, or the second has to be zero. -/
theorem cell_eq_cell_mod_iff (mem : Memory) (address : Nat) :
    mem.cell address = mem.cell (address % mem.size) ↔
      (mem.size ≤ address → mem.cell (address % mem.size) = 0) := by
  by_cases outside : mem.size ≤ address
  · rw [Memory.cell_of_le outside, eq_comm]
    exact ⟨fun zero _ => zero, fun zero => zero outside⟩
  · rw [Nat.mod_eq_of_lt (Nat.lt_of_not_le outside)]
    exact iff_of_true rfl fun le => absurd le outside

end Machine

namespace Debugger

theorem head?_disassembly (d : Debugger) {lines : Nat} (some : 1 ≤ lines)
    (inside : d.machine.regs.pc.toNat < d.machine.mem.size) :
    (d.disassembly lines).head?.map Row.item =
      .some (Item.first (d.machine.mem.toList.drop d.machine.regs.pc.toNat)) := by
  obtain ⟨more, rfl⟩ := Nat.exists_eq_add_of_le' some
  simp only [disassembly]
  rw [Memory.drop_toList inside, Row.sweep_cons]
  rfl

theorem head?_listing? {d : Debugger} {lines : Nat} {listed : List Line} (some : 1 ≤ lines)
    (inside : d.machine.regs.pc.toNat < d.machine.mem.size)
    (returned : d.listing? lines = .some listed) : listed.head?.map Line.text =
      .some (Item.first (d.machine.mem.toList.drop d.machine.regs.pc.toNat)).text := by
  rw [eq_listing_of_listing? returned, listing, List.head?_map, Option.map_map]
  have row := congrArg (Option.map Item.text) (d.head?_disassembly some inside)
  rwa [Option.map_map] at row

end Debugger

namespace Machine
variable {σ : Type} [Sink σ]

/-- What is listed for the program counter before a step is the instruction that the step
executes, but for operands past the end of memory, which are listed as zero. -/
theorem listed_before_step {m after : Machine} {out written : σ} {i : Instruction}
    (succeeded : m.step out = ⟨.ok i, after, written⟩) :
    (∀ d : Debugger, d.machine = m → ∀ lines listed, 1 ≤ lines → d.listing? lines = some listed →
      listed.head?.map (·.text) = some (m.listedAt i.opcode).text) ∧
    (∀ s : Session, s.machine = m → s.itemText m.regs.pc = (m.listedAt i.opcode).text) ∧
    ((m.listedAt i.opcode).text = i.text ↔
      ∀ k, 1 ≤ k → k ≤ i.opcode.operands → m.mem.size ≤ m.regs.pc.toNat + k →
        m.mem.cell ((m.regs.pc.toNat + k) % m.mem.size) = 0) := by
  obtain ⟨read, at_pc, -⟩ := step_eq_ok succeeded
  have first := first_eq_listedAt read
  refine ⟨?_, ?_, ?_⟩
  · rintro d rfl lines listed some returned
    have row := Debugger.head?_listing? some (Memory.read_eq_ok_iff.1 read).1 returned
    rw [first] at row
    exact row
  · rintro s rfl
    exact congrArg Item.text first
  · obtain ⟨opcode, a, b⟩ := i
    obtain ⟨-, rfl, rfl⟩ := Instruction.mk.inj at_pc
    have few := opcode.operands_le
    dsimp only
    rw [listedAt, Instruction.text_inj, cell_eq_cell_mod_iff, cell_eq_cell_mod_iff]
    constructor
    · rintro ⟨first, second⟩ k pos le
      obtain rfl | rfl : k = 1 ∨ k = 2 := by omega
      · exact first le
      · exact second le
    · exact fun all => ⟨all 1 (Nat.le_refl 1), all 2 (by decide)⟩

/-- A debugger for four cells, the last two of which load R1 with the byte that comes next,
which is the first cell. One step has been made. -/
def straddlingLoad : Debugger := (Debugger.start [0x78, 0, 0x99, 1] ⟨4, 0, .raw, 0⟩).step

theorem listed_before_step_straddlingLoad :
    straddlingLoad.machine.step straddlingLoad.output =
      ⟨.ok ⟨.ldi, 1, 0x78⟩, straddlingLoad.step.machine, straddlingLoad.step.output⟩ ∧
    straddlingLoad.listing? 1 = some (straddlingLoad.listing 1) ∧
    (straddlingLoad.listing 1).head?.map (·.text) =
      some (straddlingLoad.machine.listedAt .ldi).text := by
  have succeeded : straddlingLoad.machine.step straddlingLoad.output =
      ⟨.ok ⟨.ldi, 1, 0x78⟩, straddlingLoad.step.machine, straddlingLoad.step.output⟩ := rfl
  have listed : straddlingLoad.listing? 1 = some (straddlingLoad.listing 1) := rfl
  exact ⟨succeeded, listed,
    (listed_before_step succeeded).1 straddlingLoad rfl 1 _ (Nat.le_refl 1) listed⟩

/-- The value that is loaded is not the one that was listed. -/
theorem listed_ne_executed :
    (straddlingLoad.machine.step straddlingLoad.output).result = .ok ⟨.ldi, 1, 0x78⟩ ∧
    straddlingLoad.listing? 1 = some (straddlingLoad.listing 1) ∧
    (straddlingLoad.listing 1).head?.map (·.text) ≠ some (Instruction.text ⟨.ldi, 1, 0x78⟩) := by
  have listed : (straddlingLoad.listing 1).head?.map (·.text) =
      some (Instruction.text ⟨.ldi, 1, 0⟩) := rfl
  refine ⟨rfl, rfl, fun same => ?_⟩
  have operands := Instruction.text_inj.1 (Option.some.inj (listed.symm.trans same))
  exact absurd (operands.2 (by decide)) (by decide)

end Machine

end ByteMachine
