import ByteMachine.Assembly.Statement

/-! A source text laid out. `layout` goes through the lines and gives the pieces of
the program in order, each with the number of its line, and the labels with the
offsets at which they are defined; `resolve` then puts the offset of its label in
the place of an address. -/
namespace ByteMachine.Assembly

/-- The labels defined so far, each with the number of bytes before it. -/
abbrev Labels := List (List Char × Nat)

structure Layout where
  pieces : List (Nat × Piece)
  labels : Labels
deriving DecidableEq

def define (labels : Labels) (offset : Nat) : Option (List Char) → Except Cause Labels
  | none => .ok labels
  | some text => do
    let name ← labelName text
    if (labels.lookup name).isSome then throw (.duplicateLabel name)
    return (name, offset) :: labels

def readLine (labels : Labels) (offset : Nat) (text : List Char) :
    Except Cause (Labels × List Piece) := do
  let line := Line.ofText text
  let labels ← define labels offset line.label
  return (labels, ← statement line.body)

def layout (number offset : Nat) (labels : Labels) : List (List Char) → Except Error Layout
  | [] => .ok ⟨[], labels⟩
  | text :: rest =>
    match readLine labels offset text with
    | .error cause => .error ⟨number, cause⟩
    | .ok (labels, pieces) =>
      (layout (number + 1) (offset + pieces.length) labels rest).map fun more =>
        { more with pieces := pieces.map (number, ·) ++ more.pieces }

def resolve (labels : Labels) : Nat × Piece → Except Error UInt8
  | (_, .byte b) => .ok b
  | (line, .address label) =>
    match labels.lookup label with
    | none => .error ⟨line, .undefinedLabel label⟩
    | some offset =>
      if offset ≤ 255 then .ok (UInt8.ofNat offset) else .error ⟨line, .outOfRange offset⟩

end ByteMachine.Assembly
