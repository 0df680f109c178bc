import ByteMachine.Proofs.Listing.Source
import Mathlib.Data.List.Chain

/-! The sweep over the bytes of a program. Rows follow each other without a gap, and
the bytes their items stand for are the program if no item announces more bytes
than there are. -/
namespace ByteMachine

namespace Item

theorem first_of_opcode {byte : UInt8} {op : Opcode} (known : Opcode.ofByte? byte = some op)
    (rest : List UInt8) :
    first (byte :: rest) = instruction ⟨op, rest.getD 0 0, rest.getD 1 0⟩ := by
  simp only [first, Instruction.decode, Opcode.ofByte, known, Except.map]

theorem first_of_no_opcode {byte : UInt8} (unknown : Opcode.ofByte? byte = none)
    (rest : List UInt8) : first (byte :: rest) = data byte := by
  simp only [first, Instruction.decode, Opcode.ofByte, unknown, Except.map, List.headD_cons]

theorem take_getD {rest : List UInt8} {n : Nat} (few : n ≤ 2) (fits : n ≤ rest.length) :
    [rest.getD 0 0, rest.getD 1 0].take n = rest.take n := by
  obtain rfl | rfl | rfl : n = 0 ∨ n = 1 ∨ n = 2 := by omega
  · rfl
  · obtain ⟨a, more, rfl⟩ := List.exists_cons_of_length_pos fits
    rfl
  · match rest, fits with
    | a :: b :: more, _ => rfl

theorem encode_first {byte : UInt8} {rest : List UInt8}
    (whole : (first (byte :: rest)).size ≤ (byte :: rest).length) :
    (first (byte :: rest)).encode = (byte :: rest).take (first (byte :: rest)).size := by
  cases known : Opcode.ofByte? byte with
  | none => rw [first_of_no_opcode known]; rfl
  | some op =>
    have opening := Opcode.ofByte?_eq_some_iff.1 known
    have few := op.operands_le
    rw [first_of_opcode known] at whole ⊢
    have fits : op.operands ≤ rest.length := by
      simpa only [size, Opcode.size, List.length_cons, Nat.add_le_add_iff_right] using whole
    rw [encode, Instruction.encode_eq, size, Opcode.size, List.take_succ_cons, opening,
      take_getD few fits]

end Item

namespace Row

/-- What holds of no bytes, and of some bytes if it holds behind their first item,
holds of any bytes. -/
theorem sweep_induction {motive : Nat → List UInt8 → Prop} (nil : ∀ address, motive address [])
    (cons : ∀ address byte rest,
      motive (address + (Item.first (byte :: rest)).size)
        ((byte :: rest).drop (Item.first (byte :: rest)).size) → motive address (byte :: rest))
    (address : Nat) (bytes : List UInt8) : motive address bytes := by
  induction length : bytes.length using Nat.strongRecOn generalizing address bytes with
  | ind n ih =>
    cases bytes with
    | nil => exact nil address
    | cons byte rest =>
      have pos := (Item.first (byte :: rest)).size_pos
      refine cons address byte rest (ih _ ?_ _ _ rfl)
      rw [← length, List.length_drop, List.length_cons]
      omega

theorem address_le_of_mem_sweep {address : Nat} {bytes : List UInt8} :
    ∀ row ∈ sweep address bytes, address ≤ row.address := by
  induction address, bytes using sweep_induction with
  | nil address => simp [sweep_nil]
  | cons address byte rest ih =>
    intro row mem
    rw [sweep_cons] at mem
    rcases List.mem_cons.1 mem with rfl | mem
    · exact Nat.le_refl _
    · exact Nat.le_trans (Nat.le_add_right _ _) (ih row mem)

theorem sweep_ascending (address : Nat) (bytes : List UInt8) :
    (sweep address bytes).Pairwise (·.address < ·.address) := by
  induction address, bytes using sweep_induction with
  | nil address => exact List.Pairwise.nil
  | cons address byte rest ih =>
    rw [sweep_cons]
    refine List.Pairwise.cons (fun row mem => ?_) ih
    have pos := (Item.first (byte :: rest)).size_pos
    have behind := address_le_of_mem_sweep row mem
    change address < row.address
    omega

def Whole (row : Row) : Prop := row.bytes.length = row.item.size

theorem head?_sweep (address : Nat) (bytes : List UInt8) :
    ∀ row ∈ (sweep address bytes).head?, row.address = address := by
  intro row first
  cases bytes with
  | nil => cases first
  | cons byte rest =>
    rw [sweep_cons] at first
    exact congrArg Row.address (Option.some.inj first).symm

theorem sweep_eq_nil_iff {address : Nat} {bytes : List UInt8} :
    sweep address bytes = [] ↔ bytes = [] := by
  cases bytes with
  | nil => exact iff_of_true rfl rfl
  | cons byte rest =>
    rw [sweep_cons]
    exact iff_of_false (List.cons_ne_nil _ _) (List.cons_ne_nil _ _)

/-- A row that another one follows is whole, and the next one begins behind its item. -/
theorem sweep_chain (address : Nat) (bytes : List UInt8) :
    (sweep address bytes).IsChain fun row next =>
      row.Whole ∧ next.address = row.address + row.item.size := by
  induction address, bytes using sweep_induction with
  | nil address => exact .nil
  | cons address byte rest ih =>
    rw [sweep_cons, List.isChain_cons]
    refine ⟨fun next follows => ⟨?_, head?_sweep _ _ next follows⟩, ih⟩
    have more : (byte :: rest).drop (Item.first (byte :: rest)).size ≠ [] := by
      intro none
      rw [none, sweep_nil] at follows
      cases follows
    have shorter := List.length_pos_of_ne_nil more
    rw [List.length_drop] at shorter
    rw [Whole, List.length_take]
    exact Nat.min_eq_left (by omega)

theorem flatMap_bytes (address : Nat) (bytes : List UInt8) :
    (sweep address bytes).flatMap Row.bytes = bytes := by
  induction address, bytes using sweep_induction with
  | nil address => rfl
  | cons address byte rest ih => rw [sweep_cons, List.flatMap_cons, ih, List.take_append_drop]

theorem of_mem_sweep {address : Nat} {bytes : List UInt8} {row : Row}
    (mem : row ∈ sweep address bytes) :
    ∃ k < bytes.length, row.address = address + k ∧ row.item = Item.atAddress bytes k ∧
      row.bytes = (bytes.drop k).take row.item.size := by
  induction address, bytes using sweep_induction with
  | nil address => cases mem
  | cons address byte rest ih =>
    rw [sweep_cons] at mem
    rcases List.mem_cons.1 mem with rfl | mem
    · exact ⟨0, Nat.succ_pos _, rfl, rfl, rfl⟩
    · obtain ⟨k, inside, place, item, bytes⟩ := ih mem
      rw [List.length_drop] at inside
      refine ⟨(Item.first (byte :: rest)).size + k, by omega, by omega, ?_, ?_⟩
      · rw [item, Item.atAddress, Item.atAddress, List.drop_drop]
      · rw [bytes, List.drop_drop]

theorem bytes_ne_nil {address : Nat} {bytes : List UInt8} {row : Row}
    (mem : row ∈ sweep address bytes) : row.bytes ≠ [] := by
  obtain ⟨k, inside, -, -, bytes⟩ := of_mem_sweep mem
  have pos := row.item.size_pos
  apply List.ne_nil_of_length_pos
  rw [bytes, List.length_take, List.length_drop]
  omega

theorem getLast?_sweep (address : Nat) (bytes : List UInt8) :
    ∀ last ∈ (sweep address bytes).getLast?,
      address + bytes.length ≤ last.address + last.item.size := by
  induction address, bytes using sweep_induction with
  | nil address => exact nofun
  | cons address byte rest ih =>
    intro last final
    rw [sweep_cons, List.getLast?_cons] at final
    have length := List.length_drop (i := (Item.first (byte :: rest)).size) (l := byte :: rest)
    cases later : (sweep (address + (Item.first (byte :: rest)).size)
        ((byte :: rest).drop (Item.first (byte :: rest)).size)).getLast? with
    | none =>
      have done := sweep_eq_nil_iff.1 (List.getLast?_eq_none_iff.1 later)
      rw [later, Option.getD_none] at final
      rw [done, List.length_nil] at length
      obtain rfl := Option.some.inj final
      change _ ≤ address + (Item.first (byte :: rest)).size
      omega
    | some other =>
      have ends := ih other later
      rw [later, Option.getD_some] at final
      obtain rfl := Option.some.inj final
      rw [length] at ends
      omega

theorem flatMap_encode_eq_iff (address : Nat) (bytes : List UInt8) :
    (sweep address bytes).flatMap (fun row => row.item.encode) = bytes ↔
      ∀ row ∈ sweep address bytes, row.Whole := by
  induction address, bytes using sweep_induction with
  | nil address => simp [sweep_nil]
  | cons address byte rest ih =>
    rw [sweep_cons]
    simp only [List.flatMap_cons, List.forall_mem_cons, Whole, List.length_take]
    by_cases whole : (Item.first (byte :: rest)).size ≤ (byte :: rest).length
    · have split := List.take_append_drop (Item.first (byte :: rest)).size (byte :: rest)
      have cancel : ∀ tail, (byte :: rest).take (Item.first (byte :: rest)).size ++ tail =
          byte :: rest ↔ tail = (byte :: rest).drop (Item.first (byte :: rest)).size := fun tail =>
        ⟨fun same => List.append_cancel_left (same.trans split.symm), fun same => same ▸ split⟩
      rw [Nat.min_eq_left whole, Item.encode_first whole, cancel, ih]
      simp only [true_and, Whole]
    · refine iff_of_false (fun same => ?_) (fun all => ?_)
      · -- The first item alone stands for more bytes than were swept.
        have lengths := congrArg List.length same
        rw [List.length_append, Item.length_encode] at lengths
        omega
      · omega

end Row

end ByteMachine
