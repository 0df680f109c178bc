import ByteMachine.Debugger
import ByteMachine.Proofs.Listing.Sweep
import ByteMachine.Proofs.Memory

/-! The listing that the debugger shows. It begins at the program counter, goes from each item to
the place behind it, and stops because there are rows enough or because memory has come to its
end; every address in it is below the size of memory, so none loses anything in a byte. Who asks
for too many rows gets none at all. -/
namespace ByteMachine.Debugger
variable {d : Debugger} {lines : Nat} {row : Row} {line : Line} {listed : List Line}

def itemAt (d : Debugger) (address : UInt8) : Item :=
  Item.atAddress d.machine.mem.toList address.toNat

/-! ### Rows -/

theorem disassembly_eq_nil_iff : d.disassembly lines = [] ↔
    lines = 0 ∨ d.machine.mem.size ≤ d.machine.regs.pc.toNat := by
  simp only [disassembly]
  rw [List.take_eq_nil_iff, Row.sweep_eq_nil_iff, List.drop_eq_nil_iff, Memory.length_toList]

theorem of_mem_disassembly (mem : row ∈ d.disassembly lines) :
    row.address < d.machine.mem.size ∧
      row.item = Item.atAddress d.machine.mem.toList row.address := by
  obtain ⟨k, inside, place, item, -⟩ := Row.of_mem_sweep (List.mem_of_mem_take mem)
  rw [List.length_drop, Memory.length_toList] at inside
  refine ⟨by omega, ?_⟩
  rw [item, place, Item.atAddress, Item.atAddress, List.drop_drop]

theorem disassembly_ascending (d : Debugger) (lines : Nat) :
    (d.disassembly lines).Pairwise (·.address < ·.address) := (Row.sweep_ascending _ _).take

theorem disassembly_chain (d : Debugger) (lines : Nat) :
    (d.disassembly lines).IsChain fun row next => next.address = row.address + row.item.size :=
  ((Row.sweep_chain _ _).take lines).imp fun _ _ follows => follows.2

theorem address_of_head?_disassembly (first : row ∈ (d.disassembly lines).head?) :
    row.address = d.machine.regs.pc.toNat := by
  simp only [disassembly, List.head?_take] at first
  split at first
  · cases first
  · exact Row.head?_sweep _ _ row first

theorem pc_lt_of_mem_tail (later : row ∈ (d.disassembly lines).tail) :
    d.machine.regs.pc.toNat < row.address := by
  have ascending := d.disassembly_ascending lines
  cases rows : d.disassembly lines with
  | nil =>
    rw [rows] at later
    cases later
  | cons first more =>
    have begins : first ∈ (d.disassembly lines).head? := by rw [rows]; rfl
    rw [rows] at later ascending
    rw [← address_of_head?_disassembly begins]
    exact List.rel_of_pairwise_cons ascending later

theorem size_le_of_short (short : (d.disassembly lines).length < lines)
    (last : row ∈ (d.disassembly lines).getLast?) :
    d.machine.mem.size ≤ row.address + row.item.size := by
  have all : d.disassembly lines = Row.sweep d.machine.regs.pc.toNat
      (d.machine.mem.toList.drop d.machine.regs.pc.toNat) := by
    refine List.take_of_length_le ?_
    simp only [disassembly, List.length_take] at short
    omega
  rw [all] at last
  have ends := Row.getLast?_sweep _ _ row last
  rw [List.length_drop, Memory.length_toList] at ends
  omega

/-! ### Rows as they are handed out -/

theorem toNat_line_address (mem : row ∈ d.disassembly lines) :
    (d.line row).address.toNat = row.address := by
  have inside := (of_mem_disassembly mem).1
  have small := d.machine.mem.size_le
  exact UInt8.toNat_ofNat_of_lt (Nat.lt_of_lt_of_le inside small)

theorem itemAt_line_address (mem : row ∈ d.disassembly lines) :
    d.itemAt (d.line row).address = row.item := by
  rw [itemAt, toNat_line_address mem, (of_mem_disassembly mem).2]

theorem length_listing : (d.listing lines).length = (d.disassembly lines).length :=
  List.length_map _

theorem address_of_head?_listing (first : line ∈ (d.listing lines).head?) :
    line.address = d.machine.regs.pc ∧ line.current = true := by
  rw [listing, List.head?_map, Option.mem_def, Option.map_eq_some_iff] at first
  obtain ⟨row, first, rfl⟩ := first
  have place := address_of_head?_disassembly first
  have same := toNat_line_address (List.mem_of_mem_head? first)
  exact ⟨UInt8.toNat_inj.1 (same.trans place), beq_iff_eq.2 place⟩

theorem current_of_mem_tail_listing (later : line ∈ (d.listing lines).tail) :
    line.current = false := by
  rw [listing, ← List.map_tail, List.mem_map] at later
  obtain ⟨row, later, rfl⟩ := later
  exact beq_eq_false_iff_ne.2 (Nat.ne_of_gt (pc_lt_of_mem_tail later))

theorem listing_ascending (d : Debugger) (lines : Nat) :
    (d.listing lines).Pairwise (·.address < ·.address) := by
  rw [listing, List.pairwise_map]
  refine (d.disassembly_ascending lines).imp_of_mem fun first second ascending => ?_
  rwa [UInt8.lt_iff_toNat_lt, toNat_line_address first, toNat_line_address second]

theorem listing_chain (d : Debugger) (lines : Nat) :
    (d.listing lines).IsChain fun line following =>
      following.address.toNat = line.address.toNat + (d.itemAt line.address).size := by
  rw [listing, List.isChain_map]
  refine (d.disassembly_chain lines).imp_of_mem_imp fun row following first second place => ?_
  rw [toNat_line_address second, toNat_line_address first, itemAt_line_address first, place]

theorem of_mem_listing (mem : line ∈ d.listing lines) :
    line.address.toNat < d.machine.mem.size ∧ line.text = (d.itemAt line.address).text := by
  rw [listing, List.mem_map] at mem
  obtain ⟨row, mem, rfl⟩ := mem
  rw [toNat_line_address mem, itemAt_line_address mem]
  exact ⟨(of_mem_disassembly mem).1, rfl⟩

theorem size_le_of_short_listing (short : (d.listing lines).length < lines)
    (last : line ∈ (d.listing lines).getLast?) :
    d.machine.mem.size ≤ line.address.toNat + (d.itemAt line.address).size := by
  rw [length_listing] at short
  rw [listing, List.getLast?_map, Option.mem_def, Option.map_eq_some_iff] at last
  obtain ⟨row, last, rfl⟩ := last
  have mem := List.mem_of_getLast? last
  rw [toNat_line_address mem, itemAt_line_address mem]
  exact size_le_of_short short last

/-! ### The call -/

theorem listing?_eq_none_iff : d.listing? lines = none ↔ 2 ^ 58 ≤ lines := by
  have room : lines * Line.bytes ≤ largestBlock ↔ ¬ 2 ^ 58 ≤ lines := by
    have block : largestBlock = 2 ^ 63 - 1 := rfl
    rw [Line.bytes, block]
    omega
  rw [listing?, ite_eq_right_iff, room]
  simp

theorem eq_listing_of_listing? (returned : d.listing? lines = some listed) :
    listed = d.listing lines := by
  unfold listing? at returned
  split at returned
  · exact (Option.some.inj returned).symm
  · cases returned

/-- There is no listing exactly if 2 ^ 58 rows or more are asked for, as the call panics. Else the
listing is empty if no rows are asked for or the program counter is outside of memory. Otherwise it
begins at the program counter, with the only row that is marked as the current one, each row is as
far behind the one before as the item there is long, and if there are fewer rows than were asked
for the next one would be outside of memory. -/
theorem listing_structure (d : Debugger) (lines : Nat) :
    let size := d.machine.mem.size
    let pc := d.machine.regs.pc
    let next := fun line : Line => line.address.toNat + (d.itemAt line.address).size
    (d.listing? lines = none ↔ 2 ^ 58 ≤ lines) ∧
    ∀ listed, d.listing? lines = some listed →
      (listed = [] ↔ lines = 0 ∨ size ≤ pc.toNat) ∧
      (∀ first ∈ listed.head?, first.address = pc ∧ first.current = true) ∧
      (∀ later ∈ listed.tail, later.current = false) ∧
      listed.Pairwise (·.address < ·.address) ∧
      listed.IsChain (fun line following => following.address.toNat = next line) ∧
      (∀ line ∈ listed, line.address.toNat < size ∧ line.text = (d.itemAt line.address).text) ∧
      listed.length ≤ lines ∧
      (listed.length < lines → ∀ last ∈ listed.getLast?, size ≤ next last) := by
  intro size pc next
  refine ⟨listing?_eq_none_iff, fun listed returned => ?_⟩
  cases eq_listing_of_listing? returned
  refine ⟨?_, fun first => address_of_head?_listing, fun later => current_of_mem_tail_listing,
    d.listing_ascending lines, d.listing_chain lines, fun line => of_mem_listing, ?_,
    fun short last => size_le_of_short_listing short⟩
  · rw [← disassembly_eq_nil_iff]
    exact List.map_eq_nil_iff
  · rw [length_listing]
    exact List.length_take_le _ _

/-- A debugger for one cell with a halt, so that no listing of it has more than one row. -/
def halting : Debugger := .start [0x01] ⟨1, 0, .raw, 0⟩

/-- Asking for more rows than there may be room for is a panic even if there is only one. -/
theorem no_listing_halting :
    halting.machine.regs.pc.toNat < halting.machine.mem.size ∧
      halting.listing? 1 = some [⟨0, "HLT", true⟩] ∧ halting.listing? (2 ^ 64 - 1) = none :=
  ⟨by decide, by decide +kernel, listing?_eq_none_iff.2 (by decide)⟩

end ByteMachine.Debugger
