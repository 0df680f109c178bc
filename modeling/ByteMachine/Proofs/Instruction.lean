import ByteMachine.Proofs.Listing.Sweep
import ByteMachine.Proofs.Machine.Unread

/-! Instructions one behind the other. An opcode says how many bytes belong to its instruction, so
a row of bytes falls into instructions in one way only; what is read behind the operands that count
belongs to the next instruction, and so instructions come back as far as they count. -/
namespace ByteMachine.Instruction
variable {bytes : List UInt8} {i : Instruction}

/-! ### One instruction -/

theorem decode_of_opcode (op : Opcode) (rest : List UInt8) :
    decode (op.byte :: rest) = .ok ⟨op, rest.getD 0 0, rest.getD 1 0⟩ := by
  simp only [decode, Opcode.ofByte, Opcode.ofByte?_byte, Except.map]

theorem byte_of_decode {byte : UInt8} {rest : List UInt8} (read : decode (byte :: rest) = .ok i) :
    i.opcode.byte = byte := by
  cases known : Opcode.ofByte? byte with
  | none =>
    simp only [decode, Opcode.ofByte, known, Except.map] at read
    cases read
  | some op =>
    have opening := Opcode.ofByte?_eq_some_iff.1 known
    rw [← opening, decode_of_opcode] at read
    rw [← Except.ok.inj read]
    exact opening

theorem decode_encode_append (i : Instruction) (rest : List UInt8) :
    ∃ j, decode (i.encode ++ rest) = .ok j ∧ j.declared = i.declared := by
  obtain ⟨op, a, b⟩ := i
  refine ⟨_, decode_of_opcode op _, declared_eq_iff.2 ⟨fun first => ?_, fun second => ?_⟩⟩
  · obtain ⟨n, count⟩ := Nat.exists_eq_add_one.2 first
    simp [count]
  · have count : op.operands = 2 := by
      have few := op.operands_le
      omega
    simp [count]

theorem encode_decode (read : decode bytes = .ok i) (whole : i.opcode.size ≤ bytes.length) :
    i.encode = bytes.take i.opcode.size := by
  cases bytes with
  | nil => cases read
  | cons byte rest =>
    have opening := byte_of_decode read
    rw [← opening, decode_of_opcode] at read
    have fits : i.opcode.operands ≤ rest.length := by
      simpa only [Opcode.size, List.length_cons, Nat.add_le_add_iff_right] using whole
    have operands : [i.a, i.b] = [rest.getD 0 0, rest.getD 1 0] := by rw [← Except.ok.inj read]
    rw [encode_eq, operands, Item.take_getD i.opcode.operands_le fits, Opcode.size,
      List.take_succ_cons, opening]

/-! ### One after the other -/

/-- The instructions from a place in some bytes on, each as far behind the one before as that one's
opcode says, and the place where the last one ends, be it behind the bytes. -/
def decodeFrom (bytes : List UInt8) (place : Nat) : Except DecodeError (List Instruction × Nat) :=
  if place < bytes.length then
    match decode (bytes.drop place) with
    | .error e => .error e
    | .ok i =>
      (decodeFrom bytes (place + i.opcode.size)).map fun (rest, finish) => (i :: rest, finish)
  else .ok ([], place)
termination_by bytes.length - place
decreasing_by
  have pos := i.opcode.size_pos
  omega

theorem decodeFrom_end (bytes : List UInt8) :
    decodeFrom bytes bytes.length = .ok ([], bytes.length) := by
  rw [decodeFrom, if_neg (Nat.lt_irrefl _)]

theorem decodeFrom_append (front : List UInt8) (program : List Instruction) :
    ∃ decoded, decodeFrom (front ++ program.flatMap encode) front.length =
        .ok (decoded, (front ++ program.flatMap encode).length) ∧
      decoded.map declared = program.map declared := by
  induction program generalizing front with
  | nil =>
    have all : front ++ [].flatMap encode = front := List.append_nil front
    exact ⟨[], by rw [all, decodeFrom_end], rfl⟩
  | cons i program ih =>
    obtain ⟨j, read, same⟩ := decode_encode_append i (program.flatMap encode)
    obtain ⟨decoded, rest, others⟩ := ih (front ++ i.encode)
    have split : front ++ (i :: program).flatMap encode =
        front ++ i.encode ++ program.flatMap encode := by
      rw [List.flatMap_cons, List.append_assoc]
    have size : front.length + j.opcode.size = (front ++ i.encode).length := by
      have opcode : j.opcode = i.opcode := congrArg Prod.fst same
      rw [List.length_append, length_encode, opcode]
    have inside : front.length < (front ++ i.encode ++ program.flatMap encode).length := by
      have pos := i.opcode.size_pos
      simp only [List.length_append, length_encode]
      omega
    refine ⟨j :: decoded, ?_, ?_⟩
    · rw [split, decodeFrom, if_pos inside, List.append_assoc, List.drop_left, read]
      simp only
      rw [size, ← List.append_assoc, rest]
      rfl
    · rw [List.map_cons, List.map_cons, same, others]

theorem le_finish {place finish : Nat} {decoded : List Instruction}
    (read : decodeFrom bytes place = .ok (decoded, finish)) : place ≤ finish := by
  fun_induction decodeFrom bytes place generalizing decoded with
  | case1 place inside e failed => cases read
  | case2 place inside i first ih =>
    obtain ⟨⟨rest, last⟩, later, whole⟩ := Except.map_eq_ok_iff.1 read
    obtain ⟨rfl, rfl⟩ := Prod.mk.inj whole
    have further := ih later
    omega
  | case3 place outside =>
    cases read
    exact Nat.le_refl _

theorem flatMap_encode_of_decodeFrom {place : Nat} {decoded : List Instruction}
    (read : decodeFrom bytes place = .ok (decoded, bytes.length)) :
    decoded.flatMap encode = bytes.drop place := by
  fun_induction decodeFrom bytes place generalizing decoded with
  | case1 place inside e failed => cases read
  | case2 place inside i first ih =>
    obtain ⟨⟨rest, last⟩, later, whole⟩ := Except.map_eq_ok_iff.1 read
    obtain ⟨rfl, rfl⟩ := Prod.mk.inj whole
    have fits := le_finish later
    have long : i.opcode.size ≤ (bytes.drop place).length := by
      rw [List.length_drop]
      omega
    rw [List.flatMap_cons, ih later, encode_decode first long, ← List.drop_drop,
      List.take_append_drop]
  | case3 place outside =>
    cases read
    exact (List.drop_eq_nil_of_le (Nat.le_of_not_lt outside)).symm

theorem flatMap_encode_eq (program : List Instruction) : program.flatMap encode =
    (program.map declared).flatMap fun (op, operands) => op.byte :: operands := by
  rw [List.flatMap_map]
  rfl

/-- Instructions one behind the other are read as they are, as far as they count, up to the end of
their bytes, so two programs have the same bytes only if their instructions are the same as far as
they count; and whatever is read up to the end of some bytes is encoded as those bytes. A byte that
opens an instruction announces as many operands as are encoded, and if the bytes behind it are
enough, the instruction that is read is encoded as the bytes that it was read from. -/
theorem streams_decode_uniquely :
    (∀ program : List Instruction, ∃ decoded, decodeFrom (program.flatMap encode) 0 =
        .ok (decoded, (program.flatMap encode).length) ∧
      decoded.map declared = program.map declared) ∧
    (∀ program other : List Instruction, program.flatMap encode = other.flatMap encode ↔
      program.map declared = other.map declared) ∧
    (∀ bytes decoded, decodeFrom bytes 0 = .ok (decoded, bytes.length) →
      decoded.flatMap encode = bytes) ∧
    (∀ byte rest i, decode (byte :: rest) = .ok i →
      i.opcode.byte = byte ∧ i.encode.length = 1 + operandCount byte) ∧
    ∀ (op : Opcode) (rest : List UInt8), op.size ≤ (op.byte :: rest).length →
      ∃ i, decode (op.byte :: rest) = .ok i ∧ i.opcode = op ∧
        i.encode = (op.byte :: rest).take op.size := by
  have recovered : ∀ program : List Instruction, ∃ decoded,
      decodeFrom (program.flatMap encode) 0 = .ok (decoded, (program.flatMap encode).length) ∧
        decoded.map declared = program.map declared := fun program => decodeFrom_append [] program
  refine ⟨recovered, fun program other => ⟨fun same => ?_, fun same => ?_⟩,
    fun bytes decoded read => ?_, fun byte rest i read => ?_, fun op rest whole => ?_⟩
  · obtain ⟨decoded, read, mine⟩ := recovered program
    obtain ⟨decoded', read', theirs⟩ := recovered other
    rw [same, read'] at read
    rw [← mine, ← theirs, (Prod.mk.inj (Except.ok.inj read)).1]
  · rw [flatMap_encode_eq, same, ← flatMap_encode_eq]
  · exact flatMap_encode_of_decodeFrom read
  · have opening := byte_of_decode read
    refine ⟨opening, ?_⟩
    rw [length_encode, Opcode.size, Opcode.operands, opening, Nat.add_comm]
  · have read := decode_of_opcode op rest
    exact ⟨_, read, rfl, encode_decode read whole⟩

theorem streams_decode_uniquely_loadAndHalt :
    let load : Instruction := ⟨.ldi, 2, 42⟩
    let bytes : List UInt8 := [0x99, 2, 42, 0x01]
    decodeFrom bytes 0 = .ok ([load, ⟨.hlt, 0, 0⟩], bytes.length) ∧
      [load, ⟨.hlt, 0, 0⟩].flatMap encode = bytes ∧
      decode bytes = .ok load ∧ load.encode.length = 1 + operandCount 0x99 ∧
      Opcode.ldi.size ≤ bytes.length ∧
      ∃ i, decode bytes = .ok i ∧ i.encode = bytes.take Opcode.ldi.size := by
  intro load bytes
  have read : decodeFrom bytes 0 = .ok ([load, ⟨.hlt, 0, 0⟩], bytes.length) := by cbv
  have first : decode bytes = .ok load := rfl
  have long : Opcode.ldi.size ≤ bytes.length := by decide
  obtain ⟨-, -, whole, announced, encoded⟩ := streams_decode_uniquely
  obtain ⟨i, again, -, same⟩ := encoded .ldi [2, 42, 0x01] long
  exact ⟨read, whole bytes _ read, first, (announced 0x99 [2, 42, 0x01] load first).2, long,
    i, again, same⟩

end ByteMachine.Instruction
