import ByteMachine.Text.Numeral

/-! The tokens of JSON text. The scanner reads one character after the other; its
mode says which token it is in the middle of. Words and numbers end where a
character follows that cannot belong to them. -/
namespace ByteMachine.Json

inductive Token where
  | openArray | closeArray | openObject | closeObject | comma | colon
  | null
  | bool (b : Bool)
  | number (literal : List Char)
  | text (content : Option String)
deriving DecidableEq

/-- A part of a string: a character as it is, or a 16-bit unit in an escape. -/
inductive Part where
  | char (c : Char)
  | unit (n : Nat)
deriving DecidableEq

def isLeading (n : Nat) : Bool := 0xD800 ≤ n && n ≤ 0xDBFF

def isTrailing (n : Nat) : Bool := 0xDC00 ≤ n && n ≤ 0xDFFF

/-- The characters of a string. A leading surrogate has to be followed by a trailing
one, and neither may stand alone. -/
def decodeParts : List Part → Option (List Char)
  | [] => some []
  | .char c :: rest => (decodeParts rest).map (c :: ·)
  | [.unit n] => if isLeading n || isTrailing n then none else some [Char.ofNat n]
  | .unit n :: .char c :: rest =>
    if isLeading n || isTrailing n then none
    else (decodeParts rest).map (fun more => Char.ofNat n :: c :: more)
  | .unit n :: .unit m :: rest =>
    if isLeading n then
      if isTrailing m then
        (decodeParts rest).map (Char.ofNat (0x10000 + (n - 0xD800) * 0x400 + (m - 0xDC00)) :: ·)
      else none
    else if isTrailing n then none
    else (decodeParts (.unit m :: rest)).map (Char.ofNat n :: ·)

/-- What the scanner is in the middle of. What it has read of a token is kept
with the last character first. -/
inductive Mode where
  | between
  | word (letters : List Char)
  | number (literal : List Char)
  | text (parts : List Part)
  | escape (parts : List Part)
  | code (parts : List Part) (digits : List Char)
deriving DecidableEq

def isSpace (c : Char) : Bool := c == ' ' || c == '\t' || c == '\n' || c == '\r'

def isLetter (c : Char) : Bool := 'a' ≤ c && c ≤ 'z'

def isNumeral (c : Char) : Bool :=
  Text.isDigit 10 c || c == '-' || c == '+' || c == '.' || c == 'e' || c == 'E'

def allDigits (t : List Char) : Bool := t != [] && t.all (Text.isDigit 10)

def isWhole : List Char → Bool
  | ['0'] => true
  | c :: rest => c != '0' && allDigits (c :: rest)
  | [] => false

def isExponent : List Char → Bool
  | '+' :: digits => allDigits digits
  | '-' :: digits => allDigits digits
  | digits => allDigits digits

def isUnsigned (t : List Char) : Bool :=
  let mantissa := t.takeWhile (fun c => c != 'e' && c != 'E')
  let whole := mantissa.takeWhile (· != '.')
  let fraction := mantissa.dropWhile (· != '.')
  let exponent := t.dropWhile (fun c => c != 'e' && c != 'E')
  isWhole whole && (fraction == [] || allDigits (fraction.drop 1)) &&
    (exponent == [] || isExponent (exponent.drop 1))

def isNumber : List Char → Bool
  | '-' :: rest => isUnsigned rest
  | t => isUnsigned t

def keyword? (t : List Char) : Option Token :=
  [("null", Token.null), ("true", .bool true), ("false", .bool false)].findSome?
    fun (name, token) => if name.toList = t then some token else none

def Mode.finish : Mode → Option (List Token)
  | between => some []
  | word letters => (keyword? letters.reverse).map ([·])
  | number literal => if isNumber literal.reverse then some [.number literal.reverse] else none
  | text _ | escape _ | code _ _ => none

def start (c : Char) : Option (List Token × Mode) :=
  if isSpace c then some ([], .between)
  else if isLetter c then some ([], .word [c])
  else if isNumeral c then some ([], .number [c])
  else match c with
    | '[' => some ([.openArray], .between)
    | ']' => some ([.closeArray], .between)
    | '\x7b' => some ([.openObject], .between)
    | '\x7d' => some ([.closeObject], .between)
    | ',' => some ([.comma], .between)
    | ':' => some ([.colon], .between)
    | '"' => some ([], .text [])
    | _ => none

def unescape? : Char → Option Char
  | '"' => some '"'
  | '\\' => some '\\'
  | '/' => some '/'
  | 'b' => some '\x08'
  | 'f' => some '\x0c'
  | 'n' => some '\n'
  | 'r' => some '\r'
  | 't' => some '\t'
  | _ => none

def Mode.feed (mode : Mode) (c : Char) : Option (List Token × Mode) :=
  let begin := do
    let done ← mode.finish
    let (more, next) ← start c
    return (done ++ more, next)
  match mode with
  | between => start c
  | word letters => if isLetter c then some ([], .word (c :: letters)) else begin
  | number literal => if isNumeral c then some ([], .number (c :: literal)) else begin
  | text parts =>
    if c = '"' then
      some ([.text ((decodeParts parts.reverse).map String.ofList)], .between)
    else if c = '\\' then some ([], .escape parts)
    else if c.toNat < 0x20 then none
    else some ([], .text (.char c :: parts))
  | escape parts =>
    if c = 'u' then some ([], .code parts [])
    else (unescape? c).map fun plain => ([], .text (.char plain :: parts))
  | code parts digits =>
    if Text.isDigit 16 c then
      let digits := c :: digits
      if digits.length < 4 then some ([], .code parts digits)
      else some ([], .text (.unit (Text.ofDigits 16 digits.reverse) :: parts))
    else none

def scan (read : List Token) (mode : Mode) : List Char → Option (List Token)
  | [] => mode.finish.map fun done => (done.reverse ++ read).reverse
  | c :: rest =>
    match mode.feed c with
    | some (done, next) => scan (done.reverse ++ read) next rest
    | none => none

def tokens (t : List Char) : Option (List Token) := scan [] .between t

end ByteMachine.Json
