import ByteMachine.Instruction

/-! Listings of a program: the bytes are swept from the front, each opcode with
the bytes it announces is one row, and a byte that is no opcode is a row of data.
The last row may announce more bytes than there are. -/
namespace ByteMachine

inductive Item where
  | instruction (i : Instruction)
  | data (byte : UInt8)
deriving DecidableEq

namespace Item

def first (bytes : List UInt8) : Item :=
  match Instruction.decode bytes with
  | .ok i => .instruction i
  | .error _ => .data (bytes.headD 0)

def size : Item → Nat
  | instruction i => i.opcode.size
  | data _ => 1

theorem size_pos (item : Item) : 0 < item.size := by
  cases item with
  | instruction i => exact i.opcode.size_pos
  | data byte => exact Nat.one_pos

def source : Item → List Char
  | instruction i => i.source
  | data byte => ['D', 'B', ' ', '0', 'b'] ++ Text.binary byte

def text (item : Item) : String := String.ofList item.source

def atAddress (bytes : List UInt8) (address : Nat) : Item := first (bytes.drop address)

end Item

structure Row where
  address : Nat
  item : Item
  bytes : List UInt8
deriving DecidableEq

namespace Row

/-- The rows of some bytes, of which the first is at `address` and the first `skip`
belong to a row before. -/
def sweepBehind (address skip : Nat) : List UInt8 → List Row
  | [] => []
  | byte :: rest =>
    match skip with
    | skip + 1 => sweepBehind (address + 1) skip rest
    | 0 =>
      let item := Item.first (byte :: rest)
      ⟨address, item, (byte :: rest).take item.size⟩ ::
        sweepBehind (address + 1) (item.size - 1) rest

def sweep (address : Nat) (bytes : List UInt8) : List Row := sweepBehind address 0 bytes

theorem sweepBehind_eq (address skip : Nat) (bytes : List UInt8) :
    sweepBehind address skip bytes = sweep (address + skip) (bytes.drop skip) := by
  induction bytes generalizing address skip with
  | nil => simp [sweepBehind, sweep]
  | cons byte rest ih =>
    cases skip with
    | zero => rfl
    | succ skip =>
      rw [sweepBehind, ih, List.drop_succ_cons, Nat.add_assoc, Nat.add_comm 1]

theorem sweep_nil (address : Nat) : sweep address [] = [] := rfl

theorem sweep_cons (address : Nat) (byte : UInt8) (rest : List UInt8) :
    sweep address (byte :: rest) =
      let size := (Item.first (byte :: rest)).size
      ⟨address, Item.first (byte :: rest), (byte :: rest).take size⟩ ::
        sweep (address + size) ((byte :: rest).drop size) := by
  have pos := (Item.first (byte :: rest)).size_pos
  obtain ⟨n, size⟩ : ∃ n, (Item.first (byte :: rest)).size = n + 1 :=
    ⟨_, (Nat.sub_add_cancel pos).symm⟩
  simp only [sweep, sweepBehind, size, Nat.add_sub_cancel, List.drop_succ_cons]
  rw [sweepBehind_eq, sweep, Nat.add_assoc, Nat.add_comm 1]

def line (row : Row) : List Char :=
  Text.padded 10 3 row.address ++ [':', ' '] ++ row.item.source.rightpad 14 ' ' ++
    [' ', ';', ' '] ++ [' '].intercalate (row.bytes.map Text.binary)

end Row

namespace Listing

def header : List Char := "; LS-8 Disassembly\n; ----------------\n\n".toList

def ofBytes (bytes : List UInt8) : List Char :=
  header ++ (Row.sweep 0 bytes).flatMap fun row => row.line ++ ['\n']

end Listing

/-- The program as a listing that is source again. -/
def disassemble (bytes : List UInt8) : String := String.ofList (Listing.ofBytes bytes)

end ByteMachine
