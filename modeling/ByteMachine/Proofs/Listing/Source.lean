import ByteMachine.Listing
import ByteMachine.Proofs.Assembly.Statement

/-! Items as source. What an item is written as is a statement that is read back as
the bytes of the item, unless an operand that has to name a register names none. -/
namespace ByteMachine
open Text Assembly

namespace Instruction

def registerOperands (i : Instruction) : List UInt8 :=
  if i.opcode = .ldi then [i.a] else [i.a, i.b].take i.opcode.operands

def secondSource (i : Instruction) : List Char :=
  if i.opcode = .ldi then decimal i.b.toNat else registerSource i.b

theorem encode_eq (i : Instruction) :
    i.encode = i.opcode.byte :: [i.a, i.b].take i.opcode.operands := rfl

theorem registerSource_ne_nil (b : UInt8) : registerSource b ≠ [] := List.cons_ne_nil _ _

theorem word_secondSource (i : Instruction) : Word i.secondSource := by
  unfold secondSource
  split
  · exact Word.decimal _
  · exact word_registerSource _

theorem secondSource_ne_nil (i : Instruction) : i.secondSource ≠ [] := by
  unfold secondSource
  split
  · exact Nat.toDigits_ne_nil
  · exact registerSource_ne_nil _

theorem operandSource_cases (i : Instruction) :
    (i.opcode.operands = 0 ∧ i.operandSource = []) ∨
    (i.opcode.operands = 1 ∧ i.operandSource = ' ' :: registerSource i.a) ∨
    (i.opcode.operands = 2 ∧
      i.operandSource = ' ' :: (registerSource i.a ++ ',' :: ' ' :: i.secondSource)) := by
  have few := i.opcode.operands_le
  obtain count | count | count :
      i.opcode.operands = 0 ∨ i.opcode.operands = 1 ∨ i.opcode.operands = 2 := by omega
  · exact .inl ⟨count, by simp only [operandSource, count]⟩
  · exact .inr (.inl ⟨count, by simp only [operandSource, count]⟩)
  · exact .inr (.inr ⟨count, by simp only [operandSource, count, secondSource, List.cons_append]⟩)

theorem trimmed_pair (i : Instruction) :
    Trimmed (registerSource i.a ++ ',' :: ' ' :: i.secondSource) := by
  have left := (word_registerSource i.a).trimmed
  have right := i.word_secondSource.trimmed
  simpa using left.join right (registerSource_ne_nil _) i.secondSource_ne_nil [',', ' ']

def operandWords (i : Instruction) : List (List Char) :=
  if i.opcode = .ldi then [registerSource i.a, decimal i.b.toNat]
  else i.registerOperands.map registerSource

theorem operands_of_ldi {i : Instruction} (ldi : i.opcode = .ldi) : i.opcode.operands = 2 := by
  rw [ldi]
  decide

theorem registerOperands_of_ne_ldi {i : Instruction} (other : i.opcode ≠ .ldi) :
    i.registerOperands = [i.a, i.b].take i.opcode.operands := if_neg other

theorem length_operandWords (i : Instruction) : i.operandWords.length = i.opcode.operands := by
  unfold operandWords
  by_cases ldi : i.opcode = .ldi
  · rw [if_pos ldi, operands_of_ldi ldi]
    rfl
  · have few := i.opcode.operands_le
    rw [if_neg ldi, registerOperands_of_ne_ldi ldi]
    simp only [List.length_map, List.length_take, List.length_cons, List.length_nil]
    omega

theorem operands_operandSource (i : Instruction) :
    operands (trim i.operandSource) = i.operandWords := by
  unfold operandWords
  rcases i.operandSource_cases with ⟨count, written⟩ | ⟨count, written⟩ | ⟨count, written⟩
  · have other : i.opcode ≠ .ldi := fun ldi => by simp [operands_of_ldi ldi] at count
    rw [written, if_neg other, registerOperands_of_ne_ldi other, count]
    rfl
  · have other : i.opcode ≠ .ldi := fun ldi => by simp [operands_of_ldi ldi] at count
    rw [written, if_neg other, registerOperands_of_ne_ldi other, count,
      trim_lead (word_registerSource i.a).trimmed,
      operands_of_word (word_registerSource _) (registerSource_ne_nil _)]
    rfl
  · rw [written, trim_lead i.trimmed_pair,
      operands_of_words (word_registerSource _) i.word_secondSource, secondSource]
    by_cases ldi : i.opcode = .ldi
    · rw [if_pos ldi, if_pos ldi]
    · rw [if_neg ldi, if_neg ldi, registerOperands_of_ne_ldi ldi, count]
      rfl

theorem arguments_operandWords (i : Instruction) :
    arguments i.opcode i.operandWords =
      (checkRegisters i.registerOperands).map fun _ =>
        ([i.a, i.b].take i.opcode.operands).map .byte := by
  unfold operandWords
  by_cases ldi : i.opcode = .ldi
  · rw [if_pos ldi, operands_of_ldi ldi, ldi, arguments_ldi, registerOperands, if_pos ldi]
    rfl
  · rw [if_neg ldi, arguments_of_ne_ldi ldi, mapM_register, registerOperands_of_ne_ldi ldi]

theorem isBlank_of_head?_operandSource (i : Instruction) :
    ∀ c ∈ i.operandSource.head?, isBlank c := by
  rcases i.operandSource_cases with ⟨-, written⟩ | ⟨-, written⟩ | ⟨-, written⟩ <;>
    simp [written, isBlank]

theorem statement_source (i : Instruction) :
    statement i.source =
      (checkRegisters i.registerOperands).map fun _ => i.encode.map .byte := by
  rw [source, statement_mnemonic _ i.isBlank_of_head?_operandSource, operands_operandSource,
    if_pos i.length_operandWords, arguments_operandWords]
  cases checkRegisters i.registerOperands <;> rfl

theorem trimmed_source (i : Instruction) : Trimmed i.source := by
  have mnemonic := i.opcode.word_mnemonic.trimmed
  have filled := i.opcode.mnemonic_ne_nil
  rw [source]
  rcases i.operandSource_cases with ⟨-, written⟩ | ⟨-, written⟩ | ⟨-, written⟩
  · rw [written, List.append_nil]
    exact mnemonic
  · have one := (word_registerSource i.a).trimmed
    simpa [written] using mnemonic.join one filled (registerSource_ne_nil _) [' ']
  · simpa [written] using mnemonic.join i.trimmed_pair filled (List.cons_ne_nil _ _) [' ']

theorem mem_source (i : Instruction) : ∀ c ∈ i.source, c.isAlphanum ∨ c = ' ' ∨ c = ',' := by
  intro c mem
  have mnemonic := i.opcode.word_mnemonic c
  have first := word_registerSource i.a c
  have second := i.word_secondSource c
  rw [source, List.mem_append] at mem
  rcases i.operandSource_cases with ⟨-, written⟩ | ⟨-, written⟩ | ⟨-, written⟩ <;>
    simp only [written, List.mem_cons, List.mem_append, List.not_mem_nil] at mem <;> grind

end Instruction

namespace Item

def encode : Item → List UInt8
  | instruction i => i.encode
  | data byte => [byte]

def registerOperands : Item → List UInt8
  | instruction i => i.registerOperands
  | data _ => []

theorem length_encode (item : Item) : item.encode.length = item.size := by
  cases item with
  | instruction i => exact i.length_encode
  | data byte => rfl

theorem word_bits (byte : UInt8) : Word ('0' :: 'b' :: binary byte) :=
  ((Word.binary byte).cons rfl).cons rfl

theorem source_data (byte : UInt8) :
    (data byte).source = ['D', 'B'] ++ ' ' :: '0' :: 'b' :: binary byte := rfl

theorem word_directive : Word ['D', 'B'] := List.all_eq_true.1 (by decide)

theorem statement_source (item : Item) :
    statement item.source =
      (checkRegisters item.registerOperands).map fun _ => item.encode.map .byte := by
  cases item with
  | instruction i => exact i.statement_source
  | data byte =>
    have apart : ∀ c ∈ (' ' :: '0' :: 'b' :: binary byte).head?, isBlank c := by simp [isBlank]
    have values : operands (trim (' ' :: '0' :: 'b' :: binary byte)) = ['0' :: 'b' :: binary byte] := by
      rw [trim_lead (word_bits byte).trimmed,
        operands_of_word (word_bits byte) (List.cons_ne_nil _ _)]
    rw [source_data, statement_directive word_directive (by decide) apart, values,
      if_neg (List.cons_ne_nil _ _), List.mapM_cons, value_binary]
    rfl

theorem trimmed_source (item : Item) : Trimmed item.source := by
  cases item with
  | instruction i => exact i.trimmed_source
  | data byte =>
    have directive := word_directive.trimmed
    have bits := (word_bits byte).trimmed
    simpa [source_data] using
      directive.join bits (List.cons_ne_nil _ _) (List.cons_ne_nil _ _) [' ']

theorem source_ne_nil (item : Item) : item.source ≠ [] := by
  cases item with
  | instruction i => exact List.append_ne_nil_of_left_ne_nil i.opcode.mnemonic_ne_nil _
  | data byte => exact List.cons_ne_nil _ _

theorem mem_source (item : Item) : ∀ c ∈ item.source, c.isAlphanum ∨ c = ' ' ∨ c = ',' := by
  cases item with
  | instruction i => exact i.mem_source
  | data byte =>
    intro c mem
    have directive := word_directive c
    have bits := word_bits byte c
    rw [source_data] at mem
    rcases List.mem_append.1 mem with mem | mem
    · exact .inl (directive mem)
    rcases List.mem_cons.1 mem with mem | mem
    · exact .inr (.inl mem)
    · exact .inl (bits mem)

theorem plain_source (item : Item) : OneLine item.source ∧
    (∀ c ∈ item.source, c ≠ ';' ∧ c ≠ '#') ∧ ':' ∉ item.source := by
  have other : ∀ c : Char, c.isAlphanum = false → c ≠ ' ' → c ≠ ',' → c ∉ item.source := by
    intro c symbol notBlank notComma mem
    rcases item.mem_source c mem with alphanumeric | blank | comma
    · simp [symbol] at alphanumeric
    · exact notBlank blank
    · exact notComma comma
  refine ⟨fun c mem => ⟨?_, ?_⟩, fun c mem => ⟨?_, ?_⟩, other ':' rfl (by decide) (by decide)⟩
  all_goals
    rintro rfl
    exact other _ rfl (by decide) (by decide) mem

end Item

end ByteMachine
