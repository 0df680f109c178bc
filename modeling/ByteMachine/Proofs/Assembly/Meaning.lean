import ByteMachine.Opcode
import ByteMachine.Proofs.Text.Numeral
import Mathlib.Data.List.Forall2

/-! What source text means, said without an assembler. A text is a list of lines, each of
which is spelled by some text; a statement denotes bytes once it is known where the labels
are; and a label is where the line that defines it starts. -/
namespace ByteMachine.Assembly
open Text

def StartsNumber (t : List Char) : Prop := ∃ c ∈ t.head?, c = '-' ∨ isDigit 10 c

inductive Numeral : List Char → Int → Prop
  | decimal {t : List Char} {z : Int} (start : StartsNumber t) (number : Signed 10 t z) :
      Numeral t z
  | hexadecimal {x : Char} {t : List Char} {z : Int} (mark : x = 'x' ∨ x = 'X')
      (number : Signed 16 t z) : Numeral ('0' :: x :: t) z
  | binary {b : Char} {t : List Char} {z : Int} (mark : b = 'b' ∨ b = 'B')
      (number : Signed 2 t z) : Numeral ('0' :: b :: t) z

inductive RegisterOperand : List Char → UInt8 → Prop
  | intro {letter : Char} {t : List Char} {r : UInt8} (mark : letter = 'R' ∨ letter = 'r')
      (number : Unsigned 10 t r.toNat) (valid : r.toNat < 8) : RegisterOperand (letter :: t) r

/-- Where the labels are: `address label n` says that there are `n` bytes before `label`. -/
abbrev Addresses := List Char → Nat → Prop

/-- The byte that a value operand stands for. -/
inductive ValueOperand (address : Addresses) : List Char → UInt8 → Prop
  | number {t : List Char} {b : UInt8} (numeral : Numeral t b.toNat) : ValueOperand address t b
  | label {t : List Char} {b : UInt8} (other : ¬ StartsNumber t)
      (place : address (uppercase t) b.toNat) : ValueOperand address t b

/-- The operands in a text: none in a blank one, or else what stands between the commas. -/
inductive OperandList : List Char → List (List Char) → Prop
  | none {t : List Char} (blank : Padded t []) : OperandList t []
  | some {t inner : List Char} {parts operands : List (List Char)} (trimmed : Padded t inner)
      (nonempty : inner ≠ []) (joined : [','].intercalate parts = inner)
      (whole : ∀ part ∈ parts, ',' ∉ part) (each : List.Forall₂ Padded parts operands) :
      OperandList t operands

inductive Phrase : List Char → List Char → List (List Char) → Prop
  | intro {word rest : List Char} {operands : List (List Char)}
      (solid : ∀ c ∈ word, isBlank c = false) (apart : ∀ c ∈ rest.head?, isBlank c)
      (list : OperandList rest operands) : Phrase (word ++ rest) word operands

/-- The bytes that a statement denotes. -/
inductive Denotes (address : Addresses) : List Char → List UInt8 → Prop
  | blank : Denotes address [] []
  | data {body word : List Char} {operands : List (List Char)} {bytes : List UInt8}
      (phrase : Phrase body word operands)
      (name : uppercase word = "DB".toList ∨ uppercase word = "DATA".toList)
      (filled : operands ≠ []) (values : List.Forall₂ (ValueOperand address) operands bytes) :
      Denotes address body bytes
  | load {body word target source : List Char} {r b : UInt8}
      (phrase : Phrase body word [target, source])
      (name : uppercase word = Opcode.ldi.mnemonic.toList)
      (register : RegisterOperand target r) (value : ValueOperand address source b) :
      Denotes address body [Opcode.ldi.byte, r, b]
  | instruction {op : Opcode} {body word : List Char} {operands : List (List Char)}
      {registers : List UInt8} (other : op ≠ .ldi) (phrase : Phrase body word operands)
      (name : uppercase word = op.mnemonic.toList) (count : operands.length = op.operands)
      (each : List.Forall₂ RegisterOperand operands registers) :
      Denotes address body (op.byte :: registers)

structure SourceLine where
  label : Option (List Char)
  body : List Char

inductive Uncommented : List Char → List Char → Prop
  | intro {code comment : List Char} (plain : ∀ c ∈ code, c ≠ ';' ∧ c ≠ '#')
      (mark : ∀ c ∈ comment.head?, c = ';' ∨ c = '#') : Uncommented (code ++ comment) code

inductive Spells : List Char → SourceLine → Prop
  | plain {t code body : List Char} (cut : Uncommented t code) (trimmed : Padded code body)
      (single : ':' ∉ body) : Spells t ⟨none, body⟩
  | labelled {t code before name after body : List Char} (cut : Uncommented t code)
      (trimmed : Padded code (before ++ ':' :: after)) (first : ':' ∉ before)
      (label : Padded before name) (nonempty : uppercase name ≠ [])
      (solid : ∀ c ∈ uppercase name, isBlank c = false) (statement : Padded after body) :
      Spells t ⟨some (uppercase name), body⟩

def labelsOf (program : List SourceLine) : List (List Char) := program.filterMap SourceLine.label

/-- A label has before it the bytes of all lines before one that defines it. -/
def Address (program : List SourceLine) (chunks : List (List UInt8)) : Addresses :=
  fun label n => ∃ (i : Nat) (line : SourceLine), program[i]? = some line ∧
    line.label = some label ∧ (chunks.take i).flatten.length = n

end ByteMachine.Assembly
