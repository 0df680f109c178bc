/-! Character screens: cells with a glyph and a style, and panels, which are boxes
with a title and rows of cells inside. A row is cut at the inner edge of its box
and filled up to it. -/
namespace ByteMachine.Screen

inductive Color where
  | red | green | yellow | magenta | cyan | gray | darkGray | white
deriving DecidableEq

structure Style where
  /-- The color of the glyph, if it is not the default one. -/
  color : Option Color
  bold : Bool
deriving DecidableEq

namespace Style

def plain : Style := ⟨none, false⟩

def colored (color : Color) : Style := ⟨some color, false⟩

def strong (color : Color) : Style := ⟨some color, true⟩

end Style

structure Cell where
  glyph : Char
  style : Style
deriving DecidableEq

def span (style : Style) (text : List Char) : List Cell := text.map (⟨·, style⟩)

theorem length_span (style : Style) (text : List Char) :
    (span style text).length = text.length := by
  simp [span]

def blank (style : Style) : Cell := ⟨' ', style⟩

/-- A row of a panel: its cells and the style of what is left of the row. -/
structure Row where
  cells : List Cell
  rest : Style

def Row.fit (row : Row) (width : Nat) : List Cell :=
  (row.cells.take width).rightpad width (blank row.rest)

theorem Row.length_fit (row : Row) (width : Nat) : (row.fit width).length = width := by
  simp only [fit, List.rightpad, List.length_append, List.length_take, List.length_replicate]
  omega

structure Panel where
  title : String
  border : Style
  inside : Style

namespace Panel

def bordered (title : String) (border : Style) : Panel := ⟨title, border, .plain⟩

def colored (title : String) (color : Color) : Panel := ⟨title, .colored color, .colored color⟩

/-- The inner size of a box: its border takes a cell on either side. -/
def inner (size : Nat) : Nat := size - 2

def top (p : Panel) (width : Nat) : List Cell :=
  span p.border ('┌' :: ((p.title.toList.take (inner width)).rightpad (inner width) '─' ++ ['┐']))

def bottom (p : Panel) (width : Nat) : List Cell :=
  span p.border ('└' :: (List.replicate (inner width) '─' ++ ['┘']))

def side (p : Panel) : Cell := ⟨'│', p.border⟩

def line (p : Panel) (width : Nat) (rows : List Row) (index : Nat) : List Cell :=
  p.side :: ((rows[index]?.getD ⟨[], p.inside⟩).fit (inner width) ++ [p.side])

def draw (p : Panel) (width height : Nat) (rows : List Row) : List (List Cell) :=
  p.top width :: ((List.range (inner height)).map (p.line width rows) ++ [p.bottom width])

end Panel

end ByteMachine.Screen
