import ByteMachine.Configuration
import ByteMachine.Proofs.Machine.Budget
import ByteMachine.Proofs.Machine.Semantics
import ByteMachine.Proofs.Memory
import ByteMachine.Proofs.Snapshot

/-! The shape of memory over whole sessions. Text from outside is taken for a memory only if
it lists a power of two of cells, no request but taking up a snapshot changes how many cells
there are, and with such a number of cells no address leaves memory, the operands of an
instruction can be fetched, and what an instruction has computed can be stored. -/
namespace ByteMachine

theorem validSize_iff {n : Nat} : ValidSize n ↔ ∃ k ≤ 8, n = 2 ^ k := by
  constructor
  · rintro ⟨le, k, rfl⟩
    exact ⟨k, (Nat.pow_le_pow_iff_right (by decide) (m := 8)).1 le, rfl⟩
  · rintro ⟨k, le, rfl⟩
    exact ⟨Nat.pow_le_pow_right (by decide) le, k, rfl⟩

namespace Memory

def listed? (v : Json) : Option (List UInt8) :=
  match v.fields? fieldNames with
  | some [some cells] => cells.asBytes?
  | _ => none

theorem ofCells_eq_ok_iff {cells : List UInt8} {m : Memory} :
    ofCells cells = .ok m ↔ (∃ k ≤ 8, cells.length = 2 ^ k) ∧ m.toList = cells := by
  rw [← validSize_iff, ← List.size_toArray]
  unfold ofCells
  split
  · next valid =>
    simp only [Except.ok.injEq, valid, true_and]
    constructor <;> rintro rfl <;> rfl
  · next invalid =>
    simp only [reduceCtorEq, false_iff, not_and]
    exact fun valid => absurd valid invalid

theorem ofSize_eq_ofCells (n : Nat) : ofSize n = ofCells (List.replicate n 0) := by
  have size : (List.replicate n (0 : UInt8)).toArray.size = n := by simp
  by_cases valid : ValidSize n
  · rw [ofSize, dif_pos valid, ofCells, dif_pos (size.symm ▸ valid)]
    rfl
  · rw [ofSize, dif_neg valid, ofCells, dif_neg (size.symm ▸ valid), List.length_replicate]

theorem ofSize_eq_ok_iff {n : Nat} {m : Memory} :
    ofSize n = .ok m ↔ (∃ k ≤ 8, n = 2 ^ k) ∧ m.toList = List.replicate n 0 := by
  rw [ofSize_eq_ofCells, ofCells_eq_ok_iff, List.length_replicate]

theorem ofJson?_eq_bind (v : Json) :
    ofJson? v = (listed? v).bind fun cells => (ofCells cells).toOption := by
  unfold ofJson? listed?
  rcases v.fields? fieldNames with _ | _ | ⟨_ | cells, _ | _⟩ <;> rfl

theorem ofJson?_eq_some_iff {v : Json} {m : Memory} :
    ofJson? v = some m ↔
      ∃ cells, listed? v = some cells ∧ (∃ k ≤ 8, cells.length = 2 ^ k) ∧ m.toList = cells := by
  have read (cells : List UInt8) :
      (ofCells cells).toOption = some m ↔ ofCells cells = .ok m := by
    cases ofCells cells <;> simp [Except.toOption]
  simp only [ofJson?_eq_bind, Option.bind_eq_some_iff, read, ofCells_eq_ok_iff]

theorem restore?_eq_some_iff {text : String} {m : Memory} :
    restore? text = some m ↔
      ∃ cells, (Json.parse text).bind listed? = some cells ∧ (∃ k ≤ 8, cells.length = 2 ^ k) ∧
        m.toList = cells := by
  simp only [restore?, Option.bind_eq_some_iff, ofJson?_eq_some_iff]
  constructor
  · rintro ⟨v, spells, cells, listed, shape⟩
    exact ⟨cells, ⟨v, spells, listed⟩, shape⟩
  · rintro ⟨cells, ⟨v, spells, listed⟩, shape⟩
    exact ⟨v, spells, cells, listed, shape⟩

theorem size_clear (m : Memory) : m.clear.size = m.size := by
  simp [clear, zeros, size]

theorem toNat_prev_zero (m : Memory) : (m.prev 0).toNat + 1 = m.size := by
  have first : (0 : UInt8).toNat < m.size := m.size_pos
  have last := m.prev_toNat first
  rw [UInt8.toNat_zero] at first last
  rw [Nat.zero_add, Nat.mod_eq_of_lt (by omega)] at last
  omega

end Memory

namespace Machine

theorem eq_powerOn_of_load {mem : Memory} {program : List UInt8} {m : Machine}
    (loaded : (powerOn mem).load program = (.ok (), m)) : m = powerOn m.mem ∧
      m.mem.size = mem.size ∧ m.mem.toList = program ++ mem.toList.drop program.length := by
  obtain ⟨cells, placed, rfl⟩ := load_eq_ok_iff.1 loaded
  have size : cells.size = mem.size := Memory.size_load placed
  have contents := Memory.toList_load placed
  rw [List.take_zero, List.nil_append, Nat.zero_add] at contents
  exact ⟨by simp only [powerOn, size], size, contents⟩

def memoryField? (v : Json) : Option Json :=
  match v.fields? fieldNames with
  | some [_, mem, _, _, _] => mem
  | _ => none

theorem memory_of_ofJson? {v : Json} {m : Machine} (read : ofJson? v = some m) :
    (memoryField? v).bind Memory.ofJson? = some m.mem := by
  unfold ofJson? at read
  split at read
  · cases read
  · split at read
    · next fields =>
      simp only [Option.bind_eq_bind, Option.bind_eq_some_iff, Option.pure_def,
        Option.some.injEq] at read
      obtain ⟨regs, -, mem, memory, name, -, state, -, cycles, -, last, -, rfl⟩ := read
      simp only [memoryField?, fields, Option.bind_some, memory]
    · cases read

theorem memory_of_restore? {text : String} {m : Machine} (read : restore? text = some m) :
    ∃ cells, ((Json.parse text).bind memoryField?).bind Memory.listed? = some cells ∧
      (∃ k ≤ 8, cells.length = 2 ^ k) ∧ m.mem.toList = cells := by
  obtain ⟨v, spells, read⟩ := Option.bind_eq_some_iff.1 read
  obtain ⟨mem, field, memory⟩ := Option.bind_eq_some_iff.1 (memory_of_ofJson? read)
  obtain ⟨cells, listed, shape⟩ := Memory.ofJson?_eq_some_iff.1 memory
  exact ⟨cells, by rw [spells, Option.bind_some, field, Option.bind_some, listed], shape⟩

variable {σ : Type} [Sink σ]

theorem size_load (m : Machine) (program : List UInt8) :
    (m.load program).2.mem.size = m.mem.size := by
  by_cases fits : 0 + program.length ≤ m.mem.size
  · obtain ⟨mem, loaded⟩ := (Memory.load_isOk_iff m.mem 0 program).2 fits
    rw [load, loaded]
    exact Memory.size_load loaded
  · rw [load, Memory.load_of_unfit (Nat.lt_of_not_le fits)]

theorem size_step (m : Machine) (out : σ) : (m.step out).machine.mem.size = m.mem.size := by
  have ends := m.step_ends out
  generalize m.step out = done at ends ⊢
  cases ends with
  | stopped _ | outside _ _ | unknown _ _ _ | failed _ _ _ => rfl
  | executed _ _ performed =>
    exact (Instruction.means_of_effect (Instruction.perform_eq_ok performed).1).size

theorem size_advance (budget : Nat) (m : Machine) (out : σ) :
    (advance budget m out).machine.mem.size = m.mem.size := by
  induction budget generalizing m out with
  | zero => rfl
  | succ budget ih =>
    have first := m.size_step out
    rw [advance]
    split
    · rcases done : m.step out with ⟨f | i, after, written⟩ <;> rw [done] at first
      · exact first
      · exact (ih after written).trans first
    · rfl

theorem size_runLimited (budget : UInt64) (m : Machine) (out : σ) :
    (m.runLimited budget out).machine.mem.size = m.mem.size := by
  rw [runLimited_eq]
  exact size_advance _ m out

end Machine

/-- What may be asked of a machine by those who own it. -/
inductive Request where
  | load (program : List UInt8)
  | write (address value : UInt8)
  | step
  | runLimited (budget : UInt64)
  | reset
  | restore (text : String)

def Request.restored? : Request → Option Machine
  | .restore text => Machine.restore? text
  | .load _ | .write _ _ | .step | .runLimited _ | .reset => none

namespace Machine
variable {σ : Type} [Sink σ]

def serve (now : Machine × σ) : Request → Machine × σ
  | .load program => ((now.1.load program).2, now.2)
  | .write address value =>
    (((now.1.mem.write address value).toOption.map fun mem => { now.1 with mem }).getD now.1, now.2)
  | .step => proceed now
  | .runLimited budget =>
    let done := now.1.runLimited budget now.2
    (done.machine, done.out)
  | .reset => (now.1.reset, now.2)
  | .restore text => ((restore? text).getD now.1, now.2)

theorem size_serve (now : Machine × σ) (request : Request) :
    (serve now request).1.mem.size = (request.restored?.getD now.1).mem.size := by
  cases request with
  | load program => exact size_load now.1 program
  | write address value =>
    rcases written : now.1.mem.write address value with e | mem
    · simp [serve, written, Request.restored?, Except.toOption]
    · have size := Memory.size_write written
      simpa [serve, written, Request.restored?, Except.toOption] using size
  | step => exact size_step now.1 now.2
  | runLimited budget => exact size_runLimited budget now.1 now.2
  | reset => exact Memory.size_clear now.1.mem
  | restore text => rfl

/-- The machine that is taken up last in a session, the first one if none is. -/
def origin (start : Machine) (requests : List Request) : Machine :=
  (requests.filterMap Request.restored?).getLast?.getD start

theorem origin_cons (start : Machine) (request : Request) (requests : List Request) :
    origin start (request :: requests) = origin (request.restored?.getD start) requests := by
  cases restored : request.restored? with
  | none => simp only [origin, List.filterMap_cons, restored, Option.getD_none]
  | some m =>
    simp only [origin, List.filterMap_cons, restored, List.getLast?_cons, Option.getD_some]

theorem size_origin_congr {one two : Machine} (same : one.mem.size = two.mem.size)
    (requests : List Request) :
    (origin one requests).mem.size = (origin two requests).mem.size := by
  unfold origin
  cases (requests.filterMap Request.restored?).getLast? with
  | none => exact same
  | some m => rfl

theorem size_session (now : Machine × σ) (requests : List Request) :
    (requests.foldl serve now).1.mem.size = (origin now.1 requests).mem.size := by
  induction requests generalizing now with
  | nil => rfl
  | cons request requests ih =>
    -- Unless a machine is taken up later, the size is the one after the first request.
    rw [List.foldl_cons, ih, origin_cons]
    exact size_origin_congr (size_serve now request) requests

/-- That memory has the shape that addresses are computed for, so none leaves it and the
operands of every instruction can be fetched. -/
structure MemorySafe (m : Machine) : Prop where
  shape : ∃ k ≤ 8, m.mem.size = 2 ^ k
  mask : m.mem.size - 1 + 1 = m.mem.size
  wrap : ∀ offset, (m.mem.wrap offset).toNat < m.mem.size
  prev : (m.mem.prev 0).toNat + 1 = m.mem.size
  operands : ∀ byte opcode, Opcode.ofByte? byte = some opcode → ∃ a b,
    m.mem.read (m.mem.wrap (m.regs.pc.toNat + 1)) = .ok a ∧
      m.mem.read (m.mem.wrap (m.regs.pc.toNat + 2)) = .ok b ∧
      (m.fetched byte).decode byte = .ok ⟨opcode, a, b⟩

theorem memorySafe (m : Machine) : m.MemorySafe where
  shape := validSize_iff.1 m.mem.valid
  mask := Nat.sub_add_cancel m.mem.size_pos
  wrap offset := m.mem.wrap_toNat offset ▸ Nat.mod_lt _ m.mem.size_pos
  prev := m.mem.toNat_prev_zero
  operands byte opcode known :=
    ⟨_, _, m.mem.read_wrap _, m.mem.read_wrap _, by rw [decode_eq, known]; rfl⟩

/-- That an instruction which has read its operands and reached the cell it needs stores its
result in registers without a fault. -/
structure WritesBack (σ : Type) (mem : Memory) : Prop where
  push : ∀ (regs : Registers) (out : σ) (index value : UInt8) (stored : Memory),
    regs.read index = .ok value → mem.write (mem.prev regs.sp) value = .ok stored →
    ∃ moved, regs.write Register.stackPointer.toByte (mem.prev regs.sp) = .ok moved ∧
      (Action.push index).runOn ⟨regs, mem, out⟩ = (.ok .next, ⟨moved, stored, out⟩)
  pop : ∀ (regs : Registers) (out : σ) (index old value : UInt8),
    regs.read index = .ok old → mem.read regs.sp = .ok value →
    ∃ moved after, regs.write Register.stackPointer.toByte (mem.next regs.sp) = .ok moved ∧
      moved.write index value = .ok after ∧
      (Action.pop index).runOn ⟨regs, mem, out⟩ = (.ok .next, ⟨after, mem, out⟩)
  arithmetic : ∀ (regs : Registers) (out : σ) (op : Operation) (index a b value : UInt8)
    (second : Operand), regs.read index = .ok a → second.read regs = .ok b →
    op.compute a b = .ok (.value value) →
    ∃ after, regs.write index value = .ok after ∧
      (Action.arithmetic op index second).runOn ⟨regs, mem, out⟩ = (.ok .next, ⟨after, mem, out⟩)

theorem writesBack (σ : Type) (mem : Memory) : WritesBack σ mem where
  push regs out index value stored read written := by
    have moved := regs.write_stackPointer (mem.prev regs.sp)
    refine ⟨_, moved, ?_⟩
    simp only [Action.push, Action.runOn_bind, Action.runOn_readRegister, Action.runOn_get,
      Action.runOn_writeCell, Action.runOn_writeRegister, Action.runOn_pure, read, written, moved,
      Except.mapError_ok]
  pop regs out index old value read popped := by
    obtain ⟨r, named, -⟩ := Registers.read_eq_ok_iff.1 read
    have moved := regs.write_stackPointer (mem.next regs.sp)
    have after : (regs.setSp (mem.next regs.sp)).write index value = .ok _ :=
      Registers.write_eq_ok_iff.2 ⟨r, named, rfl⟩
    refine ⟨_, _, moved, after, ?_⟩
    simp only [Action.pop, Action.runOn_bind, Action.runOn_readRegister, Action.runOn_get,
      Action.runOn_readCell, Action.runOn_writeRegister, Action.runOn_pure, read, popped, moved,
      after, Except.mapError_ok]
  arithmetic regs out op index a b value second read other computed := by
    obtain ⟨r, named, -⟩ := Registers.read_eq_ok_iff.1 read
    have after : regs.write index value = .ok (regs.set r value) :=
      Registers.write_eq_ok_iff.2 ⟨r, named, rfl⟩
    have applied : regs.apply op index second = .ok (regs.set r value) := by
      rw [Registers.apply, read, other]
      simp only [Except.mapError_ok, computed, bind, Except.bind, after]
    refine ⟨_, after, ?_⟩
    simp only [Action.arithmetic, Action.runOn_bind, Action.runOn_get, Action.runOn_lift,
      Action.runOn_modify, Action.runOn_pure, applied, Except.mapError_ok]

/-- Memories and machines that are built have a power of two of cells, and those that are read
from text have the cells that the text lists, a power of two as well. Whatever is asked of a
machine after that, how many cells it has is changed by nothing but taking up another machine,
every address stays inside, and no instruction fails in what it does after its checks. -/
theorem session_memorySafe :
    (∀ n mem, Memory.ofSize n = .ok mem ↔
      (∃ k ≤ 8, n = 2 ^ k) ∧ mem.toList = List.replicate n 0) ∧
    (∀ c m, Configuration.build c = .ok m →
      (∃ k ≤ 8, c.memorySize.toNat = 2 ^ k) ∧ m.mem.size = c.memorySize.toNat) ∧
    (∀ text mem, Memory.restore? text = some mem ↔
      ∃ cells, (Json.parse text).bind Memory.listed? = some cells ∧
        (∃ k ≤ 8, cells.length = 2 ^ k) ∧ mem.toList = cells) ∧
    (∀ text m, restore? text = some m →
      ∃ cells, ((Json.parse text).bind memoryField?).bind Memory.listed? = some cells ∧
        (∃ k ≤ 8, cells.length = 2 ^ k) ∧ m.mem.toList = cells) ∧
    ∀ {σ : Type} [Sink σ] (start : Machine) (out : σ) (requests : List Request),
      let m := (requests.foldl serve (start, out)).1
      m.mem.size = (origin start requests).mem.size ∧ m.MemorySafe ∧ WritesBack σ m.mem := by
  refine ⟨fun n mem => Memory.ofSize_eq_ok_iff, fun c m built => ?_,
    fun text mem => Memory.restore?_eq_some_iff, fun text m => memory_of_restore?,
    fun start out requests => ⟨size_session (start, out) requests, memorySafe _, writesBack _ _⟩⟩
  obtain ⟨mem, sized, rfl⟩ := Except.map_eq_ok_iff.1 built
  obtain ⟨shape, cells⟩ := Memory.ofSize_eq_ok_iff.1 sized
  have size := congrArg List.length cells
  rw [mem.length_toList, List.length_replicate] at size
  exact ⟨shape, size⟩

/-- Two cells with a program that counts R0 up, and a program counter outside of memory. -/
def twoCells : Machine :=
  ⟨⟨#v[255, 0, 0, 0, 0, 0, 0, 9], 200, 3, 7⟩, ⟨#[0x78, 0], by decide⟩, .halted, 12, none⟩

/-- The full machine is replaced by the one with two cells and not by what is no machine. -/
theorem session_memorySafe_twoCells :
    let requests := [.load [0x78, 0], .step, .restore twoCells.snapshot, .write 1 7,
      .restore "[]", .runLimited 3, .reset]
    let m := (requests.foldl serve (fresh, (#[] : Array UInt8))).1
    m.mem.size = 2 ∧ m.MemorySafe ∧ WritesBack (Array UInt8) m.mem := by
  intro requests m
  have taken : restore? twoCells.snapshot = some twoCells := restore?_snapshot _
  have refused : restore? "[]" = none := rfl
  have last : origin fresh requests = twoCells := by
    simp only [requests, origin_cons, Request.restored?, taken, refused, Option.getD_none,
      Option.getD_some]
    rfl
  obtain ⟨size, safe⟩ := session_memorySafe.2.2.2.2 fresh (#[] : Array UInt8) requests
  rw [last] at size
  exact ⟨size, safe⟩

end Machine

end ByteMachine
