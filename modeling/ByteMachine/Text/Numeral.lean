/-! Numerals in a base from two to sixteen, written and read. A numeral to read
is one or more digits, letters in either case, with leading zeros allowed; a
signed one may start with one sign. -/
namespace ByteMachine.Text

def decimal (n : Nat) : List Char := Nat.toDigits 10 n

def padded (base width n : Nat) : List Char := (Nat.toDigits base n).leftpad width '0'

def binary (b : UInt8) : List Char := padded 2 8 b.toNat

/-- Two hexadecimal digits, or more for a number above 255; letters are small. -/
def hexLower (n : Nat) : List Char := padded 16 2 n

def hex (n : Nat) : List Char := (hexLower n).map Char.toUpper

def signed : Int → List Char
  | .ofNat n => decimal n
  | .negSucc n => '-' :: decimal (n + 1)

/-- What a digit counts; a character that is no digit counts more than any base allows. -/
def digitValue (c : Char) : Nat :=
  if '0' ≤ c ∧ c ≤ '9' then c.toNat - '0'.toNat
  else if 'a' ≤ c ∧ c ≤ 'f' then c.toNat - 'a'.toNat + 10
  else if 'A' ≤ c ∧ c ≤ 'F' then c.toNat - 'A'.toNat + 10
  else 16

def isDigit (base : Nat) (c : Char) : Bool := digitValue c < base

/-- The number that a list of digits denotes, most significant first. -/
def ofDigits (base : Nat) (digits : List Char) : Nat :=
  digits.foldl (fun n c => base * n + digitValue c) 0

def readNat? (base : Nat) (t : List Char) : Option Nat :=
  if t ≠ [] ∧ t.all (isDigit base) then some (ofDigits base t) else none

def readUnsigned? (base : Nat) : List Char → Option Nat
  | '+' :: digits => readNat? base digits
  | digits => readNat? base digits

def fitsWord (n : Int) : Bool := Int64.minValue.toInt ≤ n && n ≤ Int64.maxValue.toInt

def readSigned? (base : Nat) (t : List Char) : Option Int :=
  let value? : Option Int := match t with
    | '-' :: digits => (readNat? base digits).map (fun n => -Int.ofNat n)
    | _ => (readUnsigned? base t).map Int.ofNat
  value?.filter fitsWord

end ByteMachine.Text
