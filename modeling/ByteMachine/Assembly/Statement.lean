import ByteMachine.Assembly.Error
import ByteMachine.Text.Blank
import ByteMachine.Text.Line

/-! One line of source: an optional label, then an optional statement, which is an
instruction or a list of data. A statement is turned into pieces, each of which
will be one byte: a byte that is known already or the address of a label. -/
namespace ByteMachine.Assembly

inductive Piece where
  | byte (b : UInt8)
  | address (label : List Char)
deriving DecidableEq

/-- A line of source, cut at its comment and divided at its first colon. -/
structure Line where
  label : Option (List Char)
  body : List Char
deriving DecidableEq

def code (line : List Char) : List Char := Text.before (fun c => c == ';' || c == '#') line

def Line.ofText (line : List Char) : Line :=
  let text := Text.trim (code line)
  if ':' ∈ text then
    ⟨some (Text.before (· == ':') text), Text.trim ((text.dropWhile (· != ':')).drop 1)⟩
  else ⟨none, text⟩

/-- The name a label goes by: case is ignored, and so are the blanks around it. -/
def labelName (text : List Char) : Except Cause (List Char) :=
  let name := Text.uppercase (Text.trim text)
  if name = [] ∨ name.any Text.isBlank then .error (.badLabel text) else .ok name

def register (operand : List Char) : Except Cause UInt8 :=
  let number? := match operand with
    | 'R' :: digits | 'r' :: digits => Text.readUnsigned? 10 digits
    | _ => none
  match number? with
  | some n => if n < 8 then .ok (UInt8.ofNat n) else .error (.badRegister operand)
  | none => .error (.badRegister operand)

inductive Literal where
  | number (value : Int)
  | malformed
  | other
deriving DecidableEq

def Literal.ofOption : Option Int → Literal
  | some value => number value
  | none => malformed

/-- Digits after `0x` are hexadecimal, after `0b` binary; a decimal number starts
with a digit or a minus sign. -/
def literal (operand : List Char) : Literal :=
  match Text.asciiLowercase operand with
  | '0' :: 'x' :: digits => .ofOption (Text.readSigned? 16 digits)
  | '0' :: 'b' :: digits => .ofOption (Text.readSigned? 2 digits)
  | c :: rest =>
    if c = '-' ∨ Text.isDigit 10 c then .ofOption (Text.readSigned? 10 (c :: rest)) else .other
  | [] => .other

def value (operand : List Char) : Except Cause Piece :=
  match literal operand with
  | .number n =>
    if 0 ≤ n ∧ n ≤ 255 then .ok (.byte (UInt8.ofNat n.toNat)) else .error (.outOfRange n)
  | .malformed => .error (.badNumber operand)
  | .other => .ok (.address (Text.uppercase operand))

def operands (rest : List Char) : List (List Char) :=
  if rest = [] then [] else (Text.fields ',' rest).map Text.trim

def isDataDirective (mnemonic : List Char) : Bool :=
  mnemonic == "DB".toList || mnemonic == "DATA".toList

def arguments (opcode : Opcode) (operands : List (List Char)) : Except Cause (List Piece) :=
  match opcode, operands with
  | .ldi, [target, source] => do
    let r ← register target
    return [.byte r, ← value source]
  | _, registers => registers.mapM fun operand => (register operand).map .byte

def statement (body : List Char) : Except Cause (List Piece) :=
  if body = [] then .ok []
  else
    let mnemonic := Text.uppercase (Text.firstRun body)
    let operands := operands (Text.trim (Text.afterRun body))
    if isDataDirective mnemonic then
      if operands = [] then .error .missingValue else operands.mapM value
    else match Opcode.ofMnemonic? mnemonic with
      | none => .error (.unknownMnemonic mnemonic)
      | some opcode =>
        if operands.length = opcode.operands then
          (arguments opcode operands).map (.byte opcode.byte :: ·)
        else .error (.operandCount opcode operands.length)

end ByteMachine.Assembly
