import ByteMachine.Assembly.Layout
import ByteMachine.Proofs.Assembly.Meaning
import ByteMachine.Proofs.Result

/-! What may be wrong with source text, said without an assembler. A line breaks the rules by the
first check that it fails: its label, then its statement, then the operands from left to right. A
text whose lines keep the rules may still refer to labels that are no byte. -/
namespace ByteMachine

namespace Assembly
open Text

/-! ### Operands -/

inductive Argument where
  | register (text : List Char)
  | value (text : List Char)

inductive Argument.Emits : Argument → Piece → Prop
  | register {t : List Char} {r : UInt8} (operand : RegisterOperand t r) :
      Emits (.register t) (.byte r)
  | number {t : List Char} {b : UInt8} (numeral : Numeral t b.toNat) : Emits (.value t) (.byte b)
  | label {t : List Char} (other : ¬ StartsNumber t) : Emits (.value t) (.address (uppercase t))

/-- A number that does not fit 64 bits is malformed as well. -/
inductive Argument.Mistake : Argument → Cause → Prop
  | register {t : List Char} (other : ∀ r, ¬ RegisterOperand t r) :
      Mistake (.register t) (.badRegister t)
  | malformed {t : List Char} (start : StartsNumber t) (other : ∀ z, Numeral t z → ¬ fitsWord z) :
      Mistake (.value t) (.badNumber t)
  | outOfRange {t : List Char} {z : Int} (numeral : Numeral t z) (fits : fitsWord z)
      (large : ¬ (0 ≤ z ∧ z ≤ 255)) : Mistake (.value t) (.outOfRange z)

def argumentsOf : Opcode → List (List Char) → List Argument
  | .ldi, [target, source] => [.register target, .value source]
  | _, texts => texts.map .register

/-! ### Statements -/

def DataWord (word : List Char) : Prop :=
  uppercase word = "DB".toList ∨ uppercase word = "DATA".toList

inductive Emits : List Char → List Piece → Prop
  | blank : Emits [] []
  | data {body word : List Char} {texts : List (List Char)} {pieces : List Piece}
      (phrase : Phrase body word texts) (name : DataWord word) (filled : texts ≠ [])
      (each : List.Forall₂ Argument.Emits (texts.map .value) pieces) : Emits body pieces
  | instruction {op : Opcode} {body word : List Char} {texts : List (List Char)}
      {pieces : List Piece} (phrase : Phrase body word texts)
      (name : uppercase word = op.mnemonic.toList) (count : texts.length = op.operands)
      (each : List.Forall₂ Argument.Emits (argumentsOf op texts) pieces) :
      Emits body (.byte op.byte :: pieces)

inductive StatementMistake : List Char → Cause → Prop
  | missingValue {body word : List Char} (phrase : Phrase body word []) (name : DataWord word) :
      StatementMistake body .missingValue
  | unknownMnemonic {body word : List Char} {texts : List (List Char)} (filled : body ≠ [])
      (phrase : Phrase body word texts) (noData : ¬ DataWord word)
      (unknown : ∀ op : Opcode, uppercase word ≠ op.mnemonic.toList) :
      StatementMistake body (.unknownMnemonic (uppercase word))
  | operandCount {op : Opcode} {body word : List Char} {texts : List (List Char)}
      (phrase : Phrase body word texts) (name : uppercase word = op.mnemonic.toList)
      (other : texts.length ≠ op.operands) : StatementMistake body (.operandCount op texts.length)
  | value {body word : List Char} {texts : List (List Char)} {cause : Cause}
      (phrase : Phrase body word texts) (name : DataWord word)
      (first : Except.First Argument.Mistake (texts.map .value) cause) : StatementMistake body cause
  | operand {op : Opcode} {body word : List Char} {texts : List (List Char)} {cause : Cause}
      (phrase : Phrase body word texts) (name : uppercase word = op.mnemonic.toList)
      (count : texts.length = op.operands)
      (first : Except.First Argument.Mistake (argumentsOf op texts) cause) :
      StatementMistake body cause

/-! ### Lines -/

/-- The first check that a line fails if the labels before it are known. -/
inductive LineMistake (known : List Char → Prop) : List Char → Cause → Prop
  | badLabel {t code front name after : List Char} (cut : Uncommented t code)
      (trimmed : Padded code (front ++ ':' :: after)) (first : ':' ∉ front)
      (label : Padded front name) (bad : name = [] ∨ ∃ c ∈ name, isBlank c) :
      LineMistake known t (.badLabel front)
  | duplicateLabel {t label body : List Char} (spells : Spells t ⟨some label, body⟩)
      (taken : known label) : LineMistake known t (.duplicateLabel label)
  | statement {t : List Char} {line : SourceLine} {cause : Cause} (spells : Spells t line)
      (fresh : ∀ label ∈ line.label, ¬ known label) (mistake : StatementMistake line.body cause) :
      LineMistake known t cause

def Defined (texts : List (List Char)) (label : List Char) : Prop :=
  ∃ t ∈ texts, ∃ body, Spells t ⟨some label, body⟩

def Broken (texts : List (List Char)) (i : Nat) (cause : Cause) : Prop :=
  ∃ t, texts[i]? = some t ∧ LineMistake (Defined (texts.take i)) t cause

/-! ### References -/

structure Reading (texts : List (List Char)) (program : List SourceLine)
    (chunks : List (List Piece)) : Prop where
  spelled : List.Forall₂ Spells texts program
  distinct : (labelsOf program).Nodup
  emitted : List.Forall₂ (fun line pieces => Emits line.body pieces) program chunks

def Placed (program : List SourceLine) (chunks : List (List Piece)) (label : List Char) (n : Nat) :
    Prop :=
  ∃ (i : Nat) (line : SourceLine), program[i]? = some line ∧ line.label = some label ∧
    (chunks.take i).flatten.length = n

def numbered (number : Nat) (chunks : List (List Piece)) : List (Nat × Piece) :=
  (chunks.zipIdx number).flatMap fun (pieces, number) => pieces.map (number, ·)

/-- A reference to a label that is nowhere, or too far on to be a byte. -/
inductive Dangling (place : Addresses) : Nat × Piece → Error → Prop
  | undefined {number : Nat} {label : List Char} (nowhere : ∀ n, ¬ place label n) :
      Dangling place (number, .address label) ⟨number, .undefinedLabel label⟩
  | far {number n : Nat} {label : List Char} (there : place label n) (far : 255 < n) :
      Dangling place (number, .address label) ⟨number, .outOfRange n⟩

end Assembly

end ByteMachine
