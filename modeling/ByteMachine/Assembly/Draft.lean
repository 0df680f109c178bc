import ByteMachine.Assembly.Layout

/-! The assembler. The first pass writes the program out line by line, with a zero in
the place of every address and a note of where it belongs; the second pass goes through
the notes and writes the addresses over the zeros. -/
namespace ByteMachine.Assembly

structure Reference where
  index : Nat
  label : List Char
  line : Nat

/-- What the first pass has come to. -/
structure Draft where
  labels : Labels
  pending : Array Reference
  output : Array UInt8

namespace Draft

def blank : Draft := ⟨[], #[], #[]⟩

def emit (line : Nat) (d : Draft) : Piece → Draft
  | .byte b => { d with output := d.output.push b }
  | .address label =>
    { d with
      pending := d.pending.push ⟨d.output.size, label, line⟩
      output := d.output.push 0 }

def readLine (line : Nat) (d : Draft) (text : List Char) : Except Error Draft :=
  match Assembly.readLine d.labels d.output.size text with
  | .error cause => .error ⟨line, cause⟩
  | .ok (labels, pieces) => .ok (pieces.foldl (emit line) { d with labels })

def readLines (line : Nat) (d : Draft) : List (List Char) → Except Error Draft
  | [] => .ok d
  | text :: rest => do
    let d ← d.readLine line text
    d.readLines (line + 1) rest

end Draft

def Reference.address (labels : Labels) (r : Reference) : Except Error UInt8 :=
  match labels.lookup r.label with
  | none => .error ⟨r.line, .undefinedLabel r.label⟩
  | some offset =>
    if offset ≤ 255 then .ok (UInt8.ofNat offset) else .error ⟨r.line, .outOfRange offset⟩

def patch (labels : Labels) (output : Array UInt8) : List Reference → Except Error (Array UInt8)
  | [] => .ok output
  | r :: rest => do
    let b ← r.address labels
    patch labels (output.setIfInBounds r.index b) rest

def assembleText (source : List Char) : Except Error (List UInt8) := do
  let d ← Draft.blank.readLines 1 (Text.lines source)
  let output ← patch d.labels d.output d.pending.toList
  return output.toList

end ByteMachine.Assembly

namespace ByteMachine

def assemble (source : String) : Except Assembly.Error (List UInt8) :=
  Assembly.assembleText source.toList

end ByteMachine
