/-! White space as Unicode defines it, and texts cut at it. A text is a list of
characters; `trim` drops the blanks at both ends; a text is its first run of other characters
followed by what `afterRun` leaves. -/
namespace ByteMachine.Text

/-- The characters with the property White_Space. -/
def isBlank (c : Char) : Bool :=
  let n := c.toNat
  (0x09 ≤ n && n ≤ 0x0D) || n == 0x20 || n == 0x85 || n == 0xA0 || n == 0x1680 ||
    (0x2000 ≤ n && n ≤ 0x200A) || n == 0x2028 || n == 0x2029 || n == 0x202F ||
    n == 0x205F || n == 0x3000

def trimStart (t : List Char) : List Char := t.dropWhile isBlank

def trimEnd (t : List Char) : List Char := (t.reverse.dropWhile isBlank).reverse

def trim (t : List Char) : List Char := trimEnd (trimStart t)

def firstRun (t : List Char) : List Char := t.takeWhile (fun c => !isBlank c)

def afterRun (t : List Char) : List Char := t.dropWhile (fun c => !isBlank c)

theorem firstRun_append_afterRun (t : List Char) : firstRun t ++ afterRun t = t :=
  List.takeWhile_append_dropWhile

theorem isBlank_of_mem_firstRun {c : Char} {t : List Char} (h : c ∈ firstRun t) :
    isBlank c = false := by
  simpa using List.all_eq_true.1 List.all_takeWhile c h

def firstWord (t : List Char) : List Char := firstRun (trimStart t)

end ByteMachine.Text
