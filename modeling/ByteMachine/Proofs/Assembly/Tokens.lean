import ByteMachine.Proofs.Assembly.Relocation
import ByteMachine.Proofs.Text.Capitals
import ByteMachine.Proofs.Text.Digits
import ByteMachine.Proofs.Text.Lowercase

/-! The words of source text that can be assembled. Beside the mnemonics and registers as they are
documented there are others: letters beyond ASCII may stand for `S` and `I` in a mnemonic, and the
number of a register may have a plus sign and zeros in front. There are no more than these. -/
namespace ByteMachine.Assembly
open Text
variable {t word name : List Char} {texts : List (List Char)} {r : UInt8}

/-! ### Mnemonics -/

def keywords : List (List Char) :=
  Opcode.all.map (·.mnemonic.toList) ++ ["DB".toList, "DATA".toList]

def DocumentedKeyword (word : List Char) : Prop := ∃ name ∈ keywords, sameUpToCase word name

theorem isUpper_of_mem_keywords (keyword : name ∈ keywords) : ∀ c ∈ name, c.isUpper := by
  have all : ∀ name ∈ keywords, name.all Char.isUpper := by decide
  exact List.all_eq_true.1 (all name keyword)

theorem unexpanded_of_mem_keywords : ∀ name ∈ keywords, Unexpanded name := by
  unfold Unexpanded
  decide +kernel

theorem uppercase_eq_keyword_iff (keyword : name ∈ keywords) :
    uppercase word = name ↔ List.Forall₂ CapitalizesTo word name :=
  uppercase_eq_iff (isUpper_of_mem_keywords keyword) (unexpanded_of_mem_keywords name keyword)

theorem mnemonic_mem_keywords (op : Opcode) : op.mnemonic.toList ∈ keywords :=
  List.mem_append_left _ (List.mem_map_of_mem op.mem_all)

theorem DataWord.mem_keywords (data : DataWord word) : uppercase word ∈ keywords := by
  obtain name | name := data <;> rw [name] <;> decide

theorem uppercase_of_mem_keywords : ∀ name ∈ keywords, uppercase name = name := by decide

theorem documentedKeyword_iff (keyword : uppercase word ∈ keywords) :
    DocumentedKeyword word ↔ ∀ c ∈ word, c.toNat < 128 := by
  have same {name : List Char} (mem : name ∈ keywords) (upper : uppercase word = name) :
      sameUpToCase word name ↔ ∀ c ∈ word, c.toNat < 128 :=
    sameUpToCase_iff_of_capitalizesTo (isUpper_of_mem_keywords mem)
      ((uppercase_eq_keyword_iff mem).1 upper)
  constructor
  · rintro ⟨name, mem, documented⟩
    have small : asciiLowercase word = asciiLowercase name := beq_iff_eq.1 documented
    have upper : uppercase word = name := by
      rw [← uppercase_asciiLowercase, small, uppercase_asciiLowercase,
        uppercase_of_mem_keywords name mem]
    exact (same mem upper).1 documented
  · exact fun ascii => ⟨_, keyword, (same keyword rfl).2 ascii⟩

/-! ### Registers -/

/-- A spelling of a register: a letter, a plus sign or none, zeros, and the digit. -/
inductive RegisterSpelling (plus : List Char) (zeros : Nat) (r : UInt8) : List Char → Prop
  | intro {letter : Char} (mark : letter = 'R' ∨ letter = 'r') (valid : r.toNat < 8) :
      RegisterSpelling plus zeros r
        (letter :: (plus ++ List.replicate zeros '0' ++ [Nat.digitChar r.toNat]))

def DocumentedRegister (t : List Char) : Prop := ∃ r, RegisterSpelling [] 0 r t

theorem digits_small_iff {n : Nat} (small : n < 10) : Digits 10 t n ↔
    ∃ zeros, t = List.replicate zeros '0' ++ [Nat.digitChar n] := by
  constructor
  · intro number
    obtain ⟨zeros, spelled⟩ := number.written (by decide) (by decide)
    rw [asciiLowercase_of_digits number.digits, Nat.toDigits_of_lt_base small] at spelled
    exact ⟨zeros, spelled⟩
  · rintro ⟨zeros, rfl⟩
    have plain : ∀ d < 10, (Nat.digitChar d).toLower = Nat.digitChar d := by decide
    refine Written.digits (by decide) (by decide) ⟨zeros, ?_⟩
    rw [Nat.toDigits_of_lt_base small, asciiLowercase, List.map_append, List.map_replicate,
      List.map_singleton, plain n small]
    rfl

theorem registerOperand_iff : RegisterOperand t r ↔
    ∃ plus zeros, (plus = [] ∨ plus = ['+']) ∧ RegisterSpelling plus zeros r t := by
  constructor
  · rintro ⟨mark, number, valid⟩
    have small : r.toNat < 10 := by omega
    obtain ⟨number⟩ | ⟨number⟩ := number
    · obtain ⟨zeros, rfl⟩ := (digits_small_iff small).1 number
      exact ⟨[], zeros, .inl rfl, .intro mark valid⟩
    · obtain ⟨zeros, rfl⟩ := (digits_small_iff small).1 number
      exact ⟨['+'], zeros, .inr rfl, .intro mark valid⟩
  · rintro ⟨plus, zeros, sign, mark, valid⟩
    have number := (digits_small_iff (n := r.toNat) (by omega)).2 ⟨zeros, rfl⟩
    obtain rfl | rfl := sign
    · exact .intro mark (.bare number) valid
    · exact .intro mark (.plus number) valid

theorem documentedRegister_iff (operand : RegisterOperand t r) :
    DocumentedRegister t ↔ t.length = 2 := by
  constructor
  · rintro ⟨r, -, -⟩
    rfl
  · intro two
    obtain ⟨plus, zeros, sign, spelling⟩ := registerOperand_iff.1 operand
    have parts : plus.length = 0 ∧ zeros = 0 := by
      cases spelling
      simp only [List.length_cons, List.length_append, List.length_replicate,
        List.length_nil] at two
      omega
    obtain ⟨none, rfl⟩ := parts
    obtain rfl := List.length_eq_zero_iff.1 none
    exact ⟨r, spelling⟩

/-! ### Statements -/

theorem Emits.keyword {body : List Char} {pieces : List Piece} (emits : Emits body pieces)
    (filled : body ≠ []) (phrase : Phrase body word texts) : uppercase word ∈ keywords := by
  obtain ⟨rfl, rfl⟩ := phrase_iff.1 phrase
  cases emits with
  | blank => exact absurd rfl filled
  | data other name =>
    obtain ⟨rfl, -⟩ := phrase_iff.1 other
    exact name.mem_keywords
  | instruction other name =>
    obtain ⟨rfl, -⟩ := phrase_iff.1 other
    rw [name]
    exact mnemonic_mem_keywords _

theorem DataWord.ne_mnemonic (data : DataWord word) (op : Opcode) :
    uppercase word ≠ op.mnemonic.toList := by
  intro name
  have other : isDataDirective op.mnemonic.toList = false := by cases op <;> decide
  rw [← name, isDataDirective_iff.2 data] at other
  cases other

theorem Emits.register {body : List Char} {pieces : List Piece} (emits : Emits body pieces)
    (filled : body ≠ []) (phrase : Phrase body word texts) {op : Opcode}
    (name : uppercase word = op.mnemonic.toList) {operand : List Char}
    (mem : .register operand ∈ argumentsOf op texts) : ∃ r, RegisterOperand operand r := by
  obtain ⟨rfl, rfl⟩ := phrase_iff.1 phrase
  cases emits with
  | blank => exact absurd rfl filled
  | data other data =>
    obtain ⟨rfl, -⟩ := phrase_iff.1 other
    exact absurd name (data.ne_mnemonic op)
  | @instruction op' _ _ _ _ other named _ each =>
    obtain ⟨rfl, rfl⟩ := phrase_iff.1 other
    have same : some op = some op' := by
      rw [← op.ofMnemonic?_mnemonic, ← name, named, op'.ofMnemonic?_mnemonic]
    obtain rfl := Option.some.inj same
    obtain ⟨i, inside, at_i⟩ := List.getElem_of_mem mem
    obtain ⟨sizes, emitted⟩ := List.forall₂_iff_get.1 each
    have piece := emitted i inside (sizes ▸ inside)
    rw [List.get_eq_getElem, at_i] at piece
    generalize List.get _ _ = p at piece
    obtain ⟨register⟩ := piece
    exact ⟨_, register⟩

/-- In a text that can be assembled, the word that starts a statement is made a keyword letter by
letter, and is one up to the case of ASCII letters exactly if it is within ASCII; and a register
operand is a letter, at most one plus sign, zeros and a digit, as documented exactly if these are
two characters. -/
theorem assemble_tokens {source : String} {bytes : List UInt8}
    (assembled : assemble source = .ok bytes) (mem : t ∈ lines source.toList) {line : SourceLine}
    (spells : Spells t line) (filled : line.body ≠ []) (phrase : Phrase line.body word texts) :
    (∃ name ∈ keywords, List.Forall₂ CapitalizesTo word name) ∧
    (DocumentedKeyword word ↔ ∀ c ∈ word, c.toNat < 128) ∧
    ∀ op : Opcode, uppercase word = op.mnemonic.toList →
      ∀ operand, .register operand ∈ argumentsOf op texts →
        (∃ plus zeros r, (plus = [] ∨ plus = ['+']) ∧ RegisterSpelling plus zeros r operand) ∧
        (DocumentedRegister operand ↔ operand.length = 2) := by
  obtain ⟨program, chunks, reading, -⟩ := reading_of_ok assembled
  obtain ⟨i, found⟩ := List.mem_iff_getElem?.1 mem
  obtain ⟨other, pieces, -, spelled, emits⟩ := reading.line found
  rw [spelled.unique spells] at emits
  have keyword := emits.keyword filled phrase
  refine ⟨⟨_, keyword, (uppercase_eq_keyword_iff keyword).1 rfl⟩, documentedKeyword_iff keyword,
    fun op name operand mem => ?_⟩
  obtain ⟨r, register⟩ := emits.register filled phrase name mem
  obtain ⟨plus, zeros, spelling⟩ := registerOperand_iff.1 register
  exact ⟨⟨plus, zeros, r, spelling⟩, documentedRegister_iff register⟩

/-- A long s in the mnemonic, and a plus sign and a zero in the register. -/
theorem assemble_tokens_longS :
    assemble "puſh R+07" = .ok [0x4D, 7] ∧ "puſh R+07".toList ∈ lines "puſh R+07".toList ∧
    Spells "puſh R+07".toList ⟨none, "puſh R+07".toList⟩ ∧
    Phrase "puſh R+07".toList "puſh".toList ["R+07".toList] ∧
    ¬ DocumentedKeyword "puſh".toList ∧ ¬ DocumentedRegister "R+07".toList := by
  have assembled : assemble "puſh R+07" = .ok [0x4D, 7] := rfl
  have mem : "puſh R+07".toList ∈ lines "puſh R+07".toList := by decide
  have spells : Spells "puſh R+07".toList ⟨none, "puſh R+07".toList⟩ := spells_iff.2 ⟨.none, rfl⟩
  have phrase : Phrase "puſh R+07".toList "puſh".toList ["R+07".toList] :=
    phrase_iff.2 ⟨rfl, rfl⟩
  obtain ⟨-, keyword, registers⟩ := assemble_tokens assembled mem spells (by decide) phrase
  obtain ⟨-, register⟩ := registers .push rfl "R+07".toList List.mem_cons_self
  have beyond : ¬ ∀ c ∈ "puſh".toList, c.toNat < 128 :=
    fun ascii => absurd (ascii 'ſ' (by decide)) (by decide)
  exact ⟨assembled, mem, spells, phrase, keyword.not.2 beyond, register.not.2 (by decide)⟩

/-- A plus sign in a register operand, and a letter beyond ASCII in a mnemonic. -/
theorem undocumented_tokens_assembled :
    (assemble "PRN R+1" = .ok [0x43, 1] ∧
      Spells "PRN R+1".toList ⟨none, "PRN R+1".toList⟩ ∧
      Phrase "PRN R+1".toList "PRN".toList ["R+1".toList] ∧
      .register "R+1".toList ∈ argumentsOf .prn ["R+1".toList] ∧
      ¬ DocumentedRegister "R+1".toList) ∧
    assemble "PUſH R1" = .ok [0x4D, 1] ∧
      Spells "PUſH R1".toList ⟨none, "PUſH R1".toList⟩ ∧
      Phrase "PUſH R1".toList "PUſH".toList ["R1".toList] ∧
      ¬ DocumentedKeyword "PUſH".toList := by
  have register : RegisterOperand "R+1".toList 1 := register_eq_ok_iff.1 rfl
  have keyword : uppercase "PUſH".toList ∈ keywords := by decide
  have beyond : ¬ ∀ c ∈ "PUſH".toList, c.toNat < 128 :=
    fun ascii => absurd (ascii 'ſ' (by decide)) (by decide)
  exact ⟨⟨rfl, spells_iff.2 ⟨.none, rfl⟩, phrase_iff.2 ⟨rfl, rfl⟩, List.mem_cons_self,
    (documentedRegister_iff register).not.2 (by decide)⟩, rfl, spells_iff.2 ⟨.none, rfl⟩,
    phrase_iff.2 ⟨rfl, rfl⟩, (documentedKeyword_iff keyword).not.2 beyond⟩

end ByteMachine.Assembly
