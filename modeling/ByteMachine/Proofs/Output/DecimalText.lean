import ByteMachine.Proofs.Listing.Current
import ByteMachine.Proofs.Machine.Printing

/-! Bytes written as decimal lines. A printer that is handed chunks writes each of their bytes
once, so that it makes no difference how the bytes were cut into chunks, and the text of its
lines can be read back. -/
namespace ByteMachine

theorem Text.utf8Encode_ascii {t : List Char} (ascii : ∀ c ∈ t, c.toNat < 128) :
    t.utf8Encode.data.toList = t.map fun c => UInt8.ofNat c.toNat := by
  rw [List.utf8Encode, List.toList_data_toByteArray]
  induction t with
  | nil => rfl
  | cons c t ih =>
    have first := ascii c List.mem_cons_self
    have one : c.utf8Size = 1 := Char.utf8Size_eq_one_iff.2 (Nat.le_of_lt_succ first)
    rw [List.flatMap_cons, String.utf8EncodeChar_eq_singleton one,
      ih fun d mem => ascii d (List.mem_cons_of_mem _ mem)]
    rfl

def decimalText (bytes : List UInt8) : String :=
  String.join (bytes.map fun b => toString b.toNat ++ "\n")

theorem toList_decimalText (bytes : List UInt8) :
    (decimalText bytes).toList = Text.unlines (bytes.map fun b => Text.decimal b.toNat) := by
  have line : ∀ b : UInt8, (toString b.toNat ++ "\n").toList = Text.decimal b.toNat ++ ['\n'] :=
    fun b => by
      rw [String.toList_append]
      exact congrArg (· ++ ['\n']) (String.toList_ofList ..)
  simp only [decimalText, String.toList_join, Text.unlines, List.flatMap_map, line]

theorem decimalText_inj {bytes others : List UInt8} :
    decimalText bytes = decimalText others ↔ bytes = others := by
  constructor
  · intro same
    have texts := congrArg (fun t : String => Text.lines t.toList) same
    have one : ∀ bytes : List UInt8, ∀ line ∈ bytes.map fun b => Text.decimal b.toNat,
        Text.OneLine line := fun bytes line mem => by
      obtain ⟨b, -, rfl⟩ := List.mem_map.1 mem
      exact .of_word (.decimal b.toNat)
    simp only [toList_decimalText, Text.lines_unlines (one _)] at texts
    have injective : Function.Injective fun b : UInt8 => Text.decimal b.toNat :=
      fun _ _ => Instruction.decimal_toNat_inj.1
    exact List.map_injective_iff.2 injective texts
  · intro same
    rw [same]

theorem render_decimal_eq (b : UInt8) :
    Presentation.decimal.render b = (decimalText [b]).toUTF8.data.toList := by
  have text : (decimalText [b]).toList = Text.decimal b.toNat ++ ['\n'] := by
    rw [toList_decimalText]
    exact List.append_nil _
  have ascii : ∀ c ∈ Text.decimal b.toNat ++ ['\n'], c.toNat < 128 := by
    have digits : ∀ c ∈ Text.decimal b.toNat, Text.isDigit 10 c :=
      Text.isDigit_of_mem_toDigits (by decide) (by decide) b.toNat
    intro c mem
    rcases List.mem_append.1 mem with digit | feed
    · exact Text.forall_isDigit (p := fun c => c.toNat < 128) (by decide) (digits c digit)
    · rw [List.mem_singleton.1 feed]
      decide
  rw [Presentation.render_decimal, ← Text.utf8Encode_ascii ascii, ← text,
    ← String.toByteArray_ofList, String.ofList_toList, String.toUTF8_eq_toByteArray]

theorem decimalText_append (bytes others : List UInt8) :
    decimalText (bytes ++ others) = decimalText bytes ++ decimalText others := by
  simp [decimalText]

theorem flatMap_render_decimal (bytes : List UInt8) :
    bytes.flatMap Presentation.decimal.render = (decimalText bytes).toUTF8.data.toList := by
  induction bytes with
  | nil => rfl
  | cons b bytes ih =>
    have split : decimalText (b :: bytes) = decimalText [b] ++ decimalText bytes :=
      decimalText_append [b] bytes
    rw [List.flatMap_cons, ih, render_decimal_eq, split]
    simp [String.toUTF8_eq_toByteArray, String.toByteArray_append]

namespace Printer
variable {p : Presentation} {written : Array UInt8}

theorem writeChunk_eq (printer : Printer) (chunk : List UInt8) :
    printer.writeChunk chunk = printer.writeEach chunk := by
  cases chunk with
  | nil =>
    rw [writeChunk, if_pos rfl]
    rfl
  | cons b rest =>
    rw [writeChunk, if_neg (List.cons_ne_nil b rest), take]
    rcases printer.writeEach (b :: rest) with ⟨reason | done, next⟩
    · rfl
    · have all : (b :: rest).drop (rest.length + 1) = [] := List.drop_length
      simp only [List.length_cons, all]
      rw [writeChunk, if_pos rfl]

theorem append_append (written : Array UInt8) (first second : List UInt8) :
    written ++ (first ++ second) = written ++ first ++ second := Array.ext' (by simp)

theorem writeEach_endless (bytes : List UInt8) : (endless p written).writeEach bytes =
    (.ok (), endless p (written ++ bytes.flatMap p.render)) := by
  induction bytes generalizing written with
  | nil => simp [writeEach]
  | cons b bytes ih =>
    have first : (endless p written).write b = (.ok (), endless p (written ++ p.render b)) :=
      write_endless
    rw [writeEach, first]
    simp only [ih, List.flatMap_cons, append_append]

def writeChunks (printer : Printer) : List (List UInt8) → Except String Unit × Printer
  | [] => (.ok (), printer)
  | chunk :: rest =>
    match printer.writeChunk chunk with
    | (.ok (), next) => next.writeChunks rest
    | refused => refused

theorem writeChunks_endless (chunks : List (List UInt8)) : (endless p written).writeChunks chunks =
    (.ok (), endless p (written ++ chunks.flatten.flatMap p.render)) := by
  induction chunks generalizing written with
  | nil => simp [writeChunks]
  | cons chunk chunks ih =>
    rw [writeChunks, writeChunk_eq, writeEach_endless]
    simp only [ih, List.flatten_cons, List.flatMap_append, append_append]

/-- A printer of decimal lines that takes everything writes, whatever it is handed, the line of
each byte after what it has written before; it writes the same for other chunks exactly if their
bytes are the same, one after the other. -/
theorem writeChunks_decimal (written : Array UInt8) (chunks : List (List UInt8)) :
    (endless .decimal written).writeChunks chunks =
      (.ok (), endless .decimal (written ++ (decimalText chunks.flatten).toUTF8.data)) ∧
    ∀ others, ((endless .decimal written).writeChunks others).2.written =
        ((endless .decimal written).writeChunks chunks).2.written ↔
      others.flatten = chunks.flatten := by
  have text : ∀ chunks : List (List UInt8), (endless .decimal written).writeChunks chunks =
      (.ok (), endless .decimal (written ++ (decimalText chunks.flatten).toUTF8.data)) := by
    intro chunks
    have same : ∀ bytes : Array UInt8, written ++ bytes.toList = written ++ bytes :=
      fun bytes => Array.ext' (by simp)
    rw [writeChunks_endless, flatMap_render_decimal, same]
  refine ⟨text chunks, fun others => ?_⟩
  rw [text others, text chunks, ← decimalText_inj, ← String.toByteArray_inj, ByteArray.ext_iff]
  exact Array.append_right_inj written

end Printer

end ByteMachine
