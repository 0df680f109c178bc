import ByteMachine.Debugger
import ByteMachine.Screen.Panel

/-! The debugger on a screen. On the left are the listing, the registers and the
status, on the right the memory, the output and the keys. -/
namespace ByteMachine.Debugger

open Screen

def hexSpan (style : Style) (b : UInt8) : List Cell := span style (Text.hex b.toNat)

def plainSpan (text : String) : List Cell := span .plain text.toList

def listingRow (d : Debugger) (line : Line) : Screen.Row :=
  let marked := d.breakpoints.contains line.address
  let style : Style :=
    if line.current then .strong .yellow else if marked then .colored .red else .plain
  let text := (if marked then '●' else ' ') :: ' ' :: (if line.current then '▶' else ' ') :: ' ' ::
    Text.hex line.address.toNat ++ ':' :: ' ' :: line.text.toList
  ⟨span style text, style⟩

def listingRows (d : Debugger) (height : Nat) : List Screen.Row :=
  (d.listing (Panel.inner height)).map d.listingRow

def registerCells (regs : Registers) (r : Register) : List Cell :=
  let name := if r = .stackPointer then "SP: " else s!"R{r.val}: "
  let value := Text.hex (regs.get r).toNat ++ ' ' :: '(' ::
    (Text.decimal (regs.get r).toNat).leftpad 3 ' ' ++ [')', ' ', ' ', ' ']
  plainSpan name ++ span (.colored .white) value

def flagStyle (regs : Registers) : Style :=
  if regs.fl &&& 7 != 0 then .colored .green else .colored .gray

def controlCells (regs : Registers) : List Cell :=
  plainSpan "PC: " ++ hexSpan (.colored .yellow) regs.pc ++
    plainSpan "   IR: " ++ span (.colored .white) (Text.binary regs.ir) ++
    plainSpan "   FL: " ++ span (flagStyle regs) regs.flags.toList

def stateCells (m : Machine) : List Cell :=
  plainSpan "Cycles: " ++ span (.colored .cyan) (Text.decimal m.cycles.toNat) ++
    plainSpan "   State: " ++
    span (.colored (if m.isRunning then .green else .red)) m.state.name.toList

def registerRows (m : Machine) : List Screen.Row :=
  let general := List.finRange 8
  [(general.take 4).flatMap (registerCells m.regs), (general.drop 4).flatMap (registerCells m.regs),
    controlCells m.regs, stateCells m].map (⟨·, .plain⟩)

def rowSize : Nat := 8

/-- The cell at the program counter stands out most, then the one at the stack
pointer, then those that are not zero. -/
def cellStyle (regs : Registers) (address : Nat) (value : UInt8) : Style :=
  if address = regs.pc.toNat then .strong .yellow
  else if address = regs.sp.toNat then .strong .magenta
  else if value != 0 then .colored .white
  else .colored .darkGray

def memoryRow (m : Machine) (start : Nat) : Screen.Row :=
  let address := span (.colored .darkGray) (Text.hex start ++ [':', ' '])
  let cells := (m.mem.dump start rowSize).flatMap fun (address, value) =>
    span (cellStyle m.regs address value) (Text.hex value.toNat ++ [' '])
  ⟨address ++ cells, .plain⟩

def memoryRows (d : Debugger) (height : Nat) : List Screen.Row :=
  (List.range (Panel.inner height)).filterMap fun index =>
    let start := (d.scroll + index) * rowSize
    if start < d.machine.mem.size then some (memoryRow d.machine start) else none

/-- Words in rows of at most `width` characters, as many in each as fit with a
blank between two of them. -/
def wrap (width : Nat) (line : List Char) : List (List Char) → List (List Char)
  | [] => if line = [] then [] else [line]
  | word :: rest =>
    if line = [] then wrap width word rest
    else if line.length + 1 + word.length ≤ width then wrap width (line ++ ' ' :: word) rest
    else line :: wrap width word rest

def outputRows (d : Debugger) (width : Nat) : List Screen.Row :=
  let words := d.output.toList.map fun b => Text.decimal b.toNat
  (wrap (Panel.inner width) [] words).map fun line => ⟨span .plain line, .plain⟩

def statusRows (d : Debugger) : List Screen.Row :=
  [⟨span (.colored .white) d.status.message.toList, .colored .white⟩]

def helpRows : List Screen.Row :=
  ["s: Step  r: Run  p: Pause  b: Breakpoint", "x: Reset  ↑↓: Scroll memory  q: Quit"].map
    fun line => ⟨span (.colored .darkGray) line.toList, .colored .darkGray⟩

/-- How a screen is divided up: two columns, and in each of them three boxes below each other.
It is for whoever lays out the screen to choose the sizes. -/
structure Split where
  left : Nat
  right : Nat
  listing : Nat
  registers : Nat
  status : Nat
  memory : Nat
  output : Nat
  help : Nat
  wide : 2 ≤ left ∧ 2 ≤ right
  high : ∀ size ∈ [listing, registers, status, memory, output, help], 2 ≤ size
  even : listing + registers + status = memory + output + help

/-- The split of a screen whose sizes leave nothing to be rounded: the left column takes 11 parts
of 20, and the topmost boxes take what the others leave. -/
def Split.ofSize? (width height : Nat) : Option Split :=
  if h : 20 ∣ width ∧ 20 ≤ width ∧ 20 ≤ height then
    some {
      left := width / 20 * 11
      right := width / 20 * 9
      listing := height - 10
      registers := 7
      status := 3
      memory := height - 9
      output := 5
      help := 4
      wide := by omega
      high := by simp; omega
      even := by omega }
  else none

def memoryPanel : Panel := .bordered " Memory " (.colored .magenta)

def memoryBox (d : Debugger) (width height : Nat) : List (List Cell) :=
  memoryPanel.draw width height (d.memoryRows height)

def drawLeft (d : Debugger) (split : Split) : List (List Cell) :=
  (Panel.bordered " Disassembly " (.colored .cyan)).draw split.left split.listing
      (d.listingRows split.listing) ++
    (Panel.bordered " Registers " (.colored .green)).draw split.left split.registers
      (registerRows d.machine) ++
    (Panel.colored " Status " .white).draw split.left split.status d.statusRows

def drawRight (d : Debugger) (split : Split) : List (List Cell) :=
  d.memoryBox split.right split.memory ++
    (Panel.bordered " Output " .plain).draw split.right split.output (d.outputRows split.right) ++
    (Panel.colored " Help " .darkGray).draw split.right split.help helpRows

def draw (d : Debugger) (split : Split) : List (List Cell) :=
  List.zipWith (· ++ ·) (d.drawLeft split) (d.drawRight split)

end ByteMachine.Debugger
