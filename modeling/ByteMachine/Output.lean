import ByteMachine.Text.Numeral

/-! Where printed bytes go. A sink takes one byte at a time and may refuse it,
with a reason, after taking part of what the byte is rendered to. A buffer takes
everything; a printer renders each byte and passes it piece by piece to a writer
that may have room for so many bytes only. -/
namespace ByteMachine

class Sink (σ : Type) where
  write : σ → UInt8 → Except String Unit × σ

instance : Sink (Array UInt8) := ⟨fun buffer b => (.ok (), buffer.push b)⟩

theorem write_buffer (buffer : Array UInt8) (b : UInt8) :
    Sink.write buffer b = (.ok (), buffer.push b) := rfl

inductive Presentation where
  | raw
  | decimal
deriving DecidableEq

namespace Presentation

def name : Presentation → String
  | raw => "raw"
  | decimal => "decimal"

def ofName? (t : String) : Option Presentation := [raw, decimal].find? (·.name == t)

theorem ofName?_name (p : Presentation) : ofName? p.name = some p := by cases p <;> decide

def pieces (p : Presentation) (b : UInt8) : List (List UInt8) :=
  match p with
  | raw => [[b]]
  | decimal => [Text.decimal b.toNat, ['\n']].map (List.map fun c => UInt8.ofNat c.toNat)

def render (p : Presentation) (b : UInt8) : List UInt8 := (p.pieces b).flatten

end Presentation

/-- What a writer without room does with more bytes. -/
inductive Refusal where
  | closed
  /-- It takes none of them, so that they cannot all be written. -/
  | stalled
deriving DecidableEq

def Refusal.message : Refusal → String
  | .closed => "closed"
  | .stalled => "failed to write whole buffer"

structure Writer where
  written : Array UInt8
  /-- How many bytes are taken in all, if there is a bound. -/
  room : Option Nat
  refusal : Refusal

namespace Writer

def unbounded : Writer := ⟨#[], none, .closed⟩

def fitting (w : Writer) (bytes : List UInt8) : List UInt8 :=
  match w.room with
  | none => bytes
  | some room => bytes.take (room - w.written.size)

def write (w : Writer) (bytes : List UInt8) : Except String Unit × Writer :=
  let taken := w.fitting bytes
  (if taken.length = bytes.length then .ok () else .error w.refusal.message,
    { w with written := w.written ++ taken })

def writeAll (w : Writer) : List (List UInt8) → Except String Unit × Writer
  | [] => (.ok (), w)
  | piece :: rest =>
    match w.write piece with
    | (.ok (), next) => next.writeAll rest
    | refused => refused

end Writer

structure Printer where
  presentation : Presentation
  writer : Writer

namespace Printer

def ofPresentation (p : Presentation) : Printer := ⟨p, .unbounded⟩

def written (p : Printer) : Array UInt8 := p.writer.written

def write (p : Printer) (b : UInt8) : Except String Unit × Printer :=
  let (result, writer) := p.writer.writeAll (p.presentation.pieces b)
  (result, { p with writer })

instance : Sink Printer := ⟨write⟩

def writeEach (p : Printer) : List UInt8 → Except String Unit × Printer
  | [] => (.ok (), p)
  | b :: rest =>
    match p.write b with
    | (.ok (), next) => next.writeEach rest
    | refused => refused

def take (p : Printer) (bytes : List UInt8) : Except String Nat × Printer :=
  match p.writeEach bytes with
  | (.ok (), next) => (.ok bytes.length, next)
  | (.error reason, next) => (.error reason, next)

/-- Hands over what is left of a chunk until nothing is left; a printer that takes none of it
has refused it. -/
def writeChunk (p : Printer) (chunk : List UInt8) : Except String Unit × Printer :=
  if chunk = [] then (.ok (), p)
  else
    match p.take chunk with
    | (.ok 0, next) => (.error Refusal.stalled.message, next)
    | (.ok (n + 1), next) => next.writeChunk (chunk.drop (n + 1))
    | (.error reason, next) => (.error reason, next)
termination_by chunk.length
decreasing_by
  have pos := List.length_pos_iff.2 ‹chunk ≠ []›
  rw [List.length_drop]
  omega

end Printer

end ByteMachine
