import ByteMachine.Opcode

/-! What can be wrong with source text: a cause and the number of its line. -/
namespace ByteMachine.Assembly

inductive Cause where
  /-- A label that is empty or holds a blank; the text stood before the colon. -/
  | badLabel (text : List Char)
  | duplicateLabel (label : List Char)
  | missingValue
  | unknownMnemonic (mnemonic : List Char)
  | operandCount (opcode : Opcode) (found : Nat)
  | badRegister (operand : List Char)
  | badNumber (operand : List Char)
  | outOfRange (value : Int)
  | undefinedLabel (label : List Char)
deriving DecidableEq

structure Error where
  line : Nat
  cause : Cause
deriving DecidableEq

namespace Cause

inductive Kind where
  | malformed | unknownMnemonic | undefinedLabel | duplicateLabel | outOfRange | badRegister
deriving DecidableEq

def kind : Cause → Kind
  | badLabel _ | missingValue | operandCount _ _ | badNumber _ => .malformed
  | unknownMnemonic _ => .unknownMnemonic
  | undefinedLabel _ => .undefinedLabel
  | duplicateLabel _ => .duplicateLabel
  | outOfRange _ => .outOfRange
  | badRegister _ => .badRegister

def detail : Cause → String
  | badLabel text => s!"bad label \x60{String.ofList text}\x60"
  | duplicateLabel label => String.ofList label
  | missingValue => "DB requires at least one value"
  | unknownMnemonic mnemonic => String.ofList mnemonic
  | operandCount opcode found =>
    s!"{opcode.mnemonic} takes {opcode.operands} operand(s), found {found}"
  | badRegister operand => s!"{String.ofList operand} (expected R0-R7)"
  | badNumber operand => s!"invalid number \x60{String.ofList operand}\x60"
  | outOfRange value => String.ofList (Text.signed value)
  | undefinedLabel label => String.ofList label

def Kind.text : Kind → String
  | malformed => "syntax error"
  | unknownMnemonic => "unknown mnemonic"
  | undefinedLabel => "undefined label"
  | duplicateLabel => "duplicate label"
  | outOfRange => "value out of range"
  | badRegister => "bad register"

end Cause

def Error.message (e : Error) : String :=
  s!"{e.cause.kind.text} on line {e.line}: {e.cause.detail}"

end ByteMachine.Assembly
