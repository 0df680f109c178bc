import ByteMachine.Text.Blank
import ByteMachine.Text.Line
import ByteMachine.Text.Numeral

/-! Program images: one byte a line in binary digits, with comments from `#` on
and blank lines skipped. Only the first word of a line counts, and it may have
fewer than eight digits. -/
namespace ByteMachine

structure Image where
  bytes : List UInt8
  sourceLines : List (List Char)
deriving DecidableEq

structure ImageError where
  line : Nat
  token : List Char
deriving DecidableEq

def ImageError.message (e : ImageError) : String :=
  s!"parse error on line {e.line}: expected a binary byte, found \x60{String.ofList e.token}\x60"

namespace Image

def empty : Image := ⟨[], []⟩

def ofBytes (bytes : List UInt8) : Image := ⟨bytes, bytes.map Text.binary⟩

def push (image : Image) (byte : UInt8) (source : List Char) : Image :=
  ⟨image.bytes ++ [byte], image.sourceLines ++ [source]⟩

def byte? (token : List Char) : Option UInt8 :=
  if token.length ≤ 8 then (Text.readNat? 2 token).map UInt8.ofNat else none

def code (line : List Char) : List Char := Text.before (· == '#') line

def ofLines (number : Nat) : List (List Char) → Except ImageError Image
  | [] => .ok empty
  | line :: rest =>
    match Text.firstWord (code line) with
    | [] => ofLines (number + 1) rest
    | token =>
      match byte? token with
      | none => .error ⟨number, token⟩
      | some byte =>
        (ofLines (number + 1) rest).map fun image =>
          ⟨byte :: image.bytes, Text.trim line :: image.sourceLines⟩

def parse (text : List Char) : Except ImageError Image := ofLines 1 (Text.lines text)

def header (count : Nat) : List Char :=
  "# LS-8 program image\n# ".toList ++ Text.decimal count ++ " bytes\n\n".toList

def line (byte : UInt8) (address : Nat) : List Char :=
  Text.binary byte ++ [' ', '#', ' '] ++ Text.padded 10 3 address ++ ['\n']

/-- The image as text. The source lines play no part. -/
def write (image : Image) : List Char :=
  header image.bytes.length ++
    image.bytes.zipIdx.flatMap fun (byte, address) => line byte address

end Image

end ByteMachine
