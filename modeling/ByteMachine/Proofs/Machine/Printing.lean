import ByteMachine.Proofs.Machine.Build
import ByteMachine.Proofs.Machine.Step
import ByteMachine.Proofs.Output

/-! Runs that print. A step has to do with its sink by the byte that it prints only, so a
run goes the same way whatever the sink makes of the bytes, until one is refused. -/
namespace ByteMachine

theorem Presentation.render_raw (b : UInt8) : raw.render b = [b] := rfl

theorem Presentation.render_decimal (b : UInt8) : decimal.render b =
    (Text.decimal b.toNat ++ ['\n']).map fun c => UInt8.ofNat c.toNat := by
  simp [render, pieces]

namespace Printer

def endless (p : Presentation) (written : Array UInt8) : Printer := ⟨p, ⟨written, none, .closed⟩⟩

def limited (p : Presentation) (room : Nat) (refusal : Refusal) (written : Array UInt8) : Printer :=
  ⟨p, ⟨written, some room, refusal⟩⟩

variable {p : Presentation} {room : Nat} {refusal : Refusal} {written : Array UInt8} {b : UInt8}

theorem sink_write (printer : Printer) (b : UInt8) :
    Sink.write printer b =
      ((printer.writer.write (printer.presentation.render b)).1,
        { printer with writer := (printer.writer.write (printer.presentation.render b)).2 }) := by
  change printer.write b = _
  rw [write, Writer.writeAll_eq_write, Presentation.render]

theorem write_endless :
    Sink.write (endless p written) b = (.ok (), endless p (written ++ p.render b)) := by
  rw [sink_write, Writer.write_of_fits rfl]
  rfl

theorem write_limited_of_fits (fits : (written ++ p.render b).size ≤ room) :
    Sink.write (limited p room refusal written) b =
      (.ok (), limited p room refusal (written ++ p.render b)) := by
  have all : (limited p room refusal written).writer.fitting (p.render b) = p.render b :=
    List.take_of_length_le (by
      have size := (limited p room refusal written).writer.size_written (p.render b)
      simp only [limited] at size ⊢
      omega)
  rw [sink_write]
  simp only [limited] at all ⊢
  rw [Writer.write_of_fits all]

theorem write_limited_of_short (within : written.size ≤ room)
    (short : room < (written ++ p.render b).size) :
    Sink.write (limited p room refusal written) b =
      (.error refusal.message,
        limited p room refusal (written ++ (p.render b).take (room - written.size))) := by
  have part : ((limited p room refusal written).writer.fitting (p.render b)).length ≠
      (p.render b).length := by
    have size := (limited p room refusal written).writer.size_written (p.render b)
    simp only [limited, Writer.fitting, List.length_take] at size ⊢
    omega
  rw [sink_write]
  simp only [limited] at part ⊢
  rw [Writer.write_of_short part]
  rfl

end Printer

namespace Machine

theorem step_of_opcode {σ : Type} [Sink σ] {m : Machine} {opcode : Opcode}
    (running : m.state = .running) (read : m.mem.read m.regs.pc = .ok opcode.byte) (out : σ) :
    m.step out =
      match (m.instructionAt opcode).perform (m.fetched opcode.byte).regs m.mem out with
      | (.error f, out) => ⟨.error f, (m.fetched opcode.byte).fault, out⟩
      | (.ok done, out) =>
        ⟨.ok (m.instructionAt opcode), m.commit (m.instructionAt opcode) done, out⟩ := by
  have fetched := step_of_running running out
  simp only [read, Opcode.ofByte?_byte] at fetched
  exact fetched

/-- A step fails or succeeds in the same way with every sink, or it prints a byte; if the byte
is refused, the machine stays at the instruction that prints. -/
theorem step_cases (m : Machine) :
    (∃ f after, ∀ {σ : Type} [Sink σ] (out : σ), m.step out = ⟨.error f, after, out⟩) ∨
    (∃ i after, ∀ {σ : Type} [Sink σ] (out : σ), m.step out = ⟨.ok i, after, out⟩) ∨
    ∃ i after b, m.state = .running ∧ m.mem.read m.regs.pc = .ok Opcode.prn.byte ∧
      ∀ {σ : Type} [Sink σ] (out : σ), m.step out =
        match Sink.write out b with
        | (.ok (), out) => ⟨.ok i, after, out⟩
        | (.error reason, out) =>
          ⟨.error (.output reason), (m.fetched Opcode.prn.byte).fault, out⟩ := by
  by_cases running : m.state = .running
  · cases read : m.mem.read m.regs.pc with
    | error e => exact .inl ⟨_, _, fun out => by rw [step_of_running running, read]⟩
    | ok byte =>
      cases known : Opcode.ofByte? byte with
      | none =>
        refine .inl ⟨.invalidOpcode byte m.regs.pc, (m.fetched byte).fault, fun out => ?_⟩
        simp only [step_of_running running, read, known]
      | some opcode =>
        cases Opcode.ofByte?_eq_some_iff.1 known
        cases effect : (m.instructionAt opcode).effect (m.fetched opcode.byte).regs m.mem with
        | error f =>
          refine .inl ⟨f, (m.fetched opcode.byte).fault, fun out => ?_⟩
          simp only [step_of_opcode running read, Instruction.perform, effect]
        | ok done =>
          let after := m.commit (m.instructionAt opcode) done
          cases printed : done.printed with
          | none =>
            refine .inr (.inl ⟨m.instructionAt opcode, after, fun out => ?_⟩)
            simp only [step_of_opcode running read, Instruction.perform, effect, printed, after]
          | some b =>
            have printing : opcode = .prn := by
              by_contra silent
              rw [Instruction.printed_eq_none silent effect] at printed
              cases printed
            cases printing
            refine .inr (.inr ⟨m.instructionAt .prn, after, b, running, rfl, fun out => ?_⟩)
            simp only [step_of_opcode running read, Instruction.perform, effect, printed]
            rcases Sink.write out b with ⟨_ | _, written⟩ <;> rfl
  · exact .inl ⟨_, _, fun out => step_of_stopped running out⟩

/-- That a run with a sink that takes everything prints, with its step after the first `k`,
the byte whose text is the first to end behind `room` bytes, and that a machine is the one
that is left if that byte is refused. -/
structure CutShort (m : Machine) (out : Printer) (room k : Nat) (left : Machine) : Prop where
  running : (m.after out k).1.state = .running
  instruction : (m.after out k).1.mem.read (m.after out k).1.regs.pc = .ok Opcode.prn.byte
  before : (m.after out k).2.written.size ≤ room
  behind : room < (m.after out (k + 1)).2.written.size
  left : left = { (m.after out k).1 with
    state := .faulted
    regs := { (m.after out k).1.regs with ir := Opcode.prn.byte } }

variable {p : Presentation} {room : Nat} {refusal : Refusal}

theorem advance_endless (budget : Nat) (m : Machine) (written : Array UInt8) :
    ∃ more : List UInt8,
      (advance budget m (Printer.endless p written)).out = .endless p (written ++ more) := by
  induction budget generalizing m written with
  | zero => exact ⟨[], by rw [advance, Array.appendList_nil]⟩
  | succ budget ih =>
    by_cases running : m.state = .running
    · obtain ⟨f, after, step⟩ | ⟨i, after, step⟩ | ⟨i, after, b, -, -, step⟩ := m.step_cases
      · exact ⟨[], by rw [advance_of_error running (step _), Array.appendList_nil]⟩
      · obtain ⟨more, same⟩ := ih after written
        exact ⟨more, by rw [advance_of_ok (step _), same]⟩
      · obtain ⟨more, same⟩ := ih after (written ++ p.render b)
        have step := step (Printer.endless p written)
        rw [Printer.write_endless] at step
        refine ⟨p.render b ++ more, ?_⟩
        rw [advance_of_ok step, same]
        congr 1
        exact Array.ext' (by simp)
    · exact ⟨[], by rw [advance_of_stopped running, Array.appendList_nil]⟩

theorem CutShort.later {m after left : Machine} {out written : Printer} {i : Instruction}
    {k : Nat} (done : m.step out = ⟨.ok i, after, written⟩)
    (cut : after.CutShort written room k left) :
    m.CutShort out room (k + 1) left := by
  have same (n : Nat) : m.after out (n + 1) = after.after written n := by
    rw [after_succ_eq, done]
  constructor <;> simp only [same]
  · exact cut.running
  · exact cut.instruction
  · exact cut.before
  · exact cut.behind
  · exact cut.left

/-- Beside a run with a sink that takes everything, the run with one that has little room: it
is the same if the room suffices, and else it is cut short at the end of the room. -/
structure Alike (m : Machine) (out : Printer) (budget room : Nat) (refusal : Refusal)
    (whole short : Outcome Printer Unit) : Prop where
  same : whole.out.written.size ≤ room →
    short.result = whole.result ∧ short.machine = whole.machine ∧
      short.out.written = whole.out.written
  cut : room < whole.out.written.size →
    short.out.written.toList = whole.out.written.toList.take room ∧
      short.result = .error (.output refusal.message) ∧
      ∃ k < budget, m.CutShort out room k short.machine

theorem Alike.later {m after : Machine} {out written : Printer} {i : Instruction} {budget : Nat}
    {whole short : Outcome Printer Unit} (done : m.step out = ⟨.ok i, after, written⟩)
    (rest : after.Alike written budget room refusal whole short) :
    m.Alike out (budget + 1) room refusal whole short where
  same := rest.same
  cut := fun beyond => by
    obtain ⟨written, result, k, less, cut⟩ := rest.cut beyond
    exact ⟨written, result, k + 1, Nat.succ_lt_succ less, cut.later done⟩

theorem Alike.silent {m after : Machine} {result : Except Fault Unit} {written : Array UInt8}
    {out : Printer} {budget : Nat} (within : written.size ≤ room) :
    m.Alike out budget room refusal ⟨result, after, .endless p written⟩
      ⟨result, after, .limited p room refusal written⟩ where
  same := fun _ => ⟨rfl, rfl, rfl⟩
  cut := fun beyond => absurd within (Nat.not_le.2 beyond)

theorem Alike.refused {m after : Machine} {written : Array UInt8} {i : Instruction} {b : UInt8}
    (running : m.state = .running) (prints : m.mem.read m.regs.pc = .ok Opcode.prn.byte)
    (done : m.step (Printer.endless p written) = ⟨.ok i, after, .endless p (written ++ p.render b)⟩)
    (within : written.size ≤ room) (beyond : room < (written ++ p.render b).size) (budget : Nat) :
    m.Alike (.endless p written) (budget + 1) room refusal
      (advance budget after (.endless p (written ++ p.render b)))
      ⟨.error (.output refusal.message), (m.fetched Opcode.prn.byte).fault,
        .limited p room refusal (written ++ (p.render b).take (room - written.size))⟩ := by
  obtain ⟨more, out⟩ := advance_endless budget after (p := p) (written ++ p.render b)
  have text :
      (advance budget after (Printer.endless p (written ++ p.render b))).out.written.toList =
        written.toList ++ p.render b ++ more := by
    rw [out]
    simp [Printer.endless, Printer.written]
  have longer : room < (written.toList ++ p.render b).length := by
    rwa [← Array.toList_appendList, Array.length_toList]
  constructor
  · intro fits
    rw [← Array.length_toList, text, List.length_append] at fits
    omega
  · intro _
    refine ⟨?_, rfl, 0, Nat.succ_pos budget, running, prints, within, ?_, rfl⟩
    · have kept : written.toList.take room = written.toList :=
        List.take_of_length_le (Array.length_toList ▸ within)
      rw [text, List.take_append_of_le_length (Nat.le_of_lt longer), List.take_append, kept]
      simp [Printer.limited, Printer.written]
    · rw [after_succ_eq, done]
      exact beyond

theorem advance_limited (budget : Nat) (m : Machine) {written : Array UInt8}
    (within : written.size ≤ room) :
    m.Alike (.endless p written) budget room refusal
      (advance budget m (.endless p written))
      (advance budget m (.limited p room refusal written)) := by
  induction budget generalizing m written with
  | zero => exact .silent within
  | succ budget ih =>
    by_cases running : m.state = .running
    -- Only an instruction that prints takes notice of the sink.
    · obtain ⟨f, after, step⟩ | ⟨i, after, step⟩ | ⟨i, after, b, -, prints, step⟩ := m.step_cases
      · rw [advance_of_error running (step _), advance_of_error running (step _)]
        exact .silent within
      · rw [advance_of_ok (step _), advance_of_ok (step _)]
        exact (ih after within).later (step _)
      · have whole := step (Printer.endless p written)
        have short := step (Printer.limited p room refusal written)
        rw [Printer.write_endless] at whole
        rw [advance_of_ok whole]
        by_cases fits : (written ++ p.render b).size ≤ room
        · rw [Printer.write_limited_of_fits fits] at short
          rw [advance_of_ok short]
          exact (ih after fits).later whole
        · have beyond := Nat.lt_of_not_le fits
          rw [Printer.write_limited_of_short within beyond] at short
          rw [advance_of_error running short]
          exact .refused running prints whole within beyond budget
    · rw [advance_of_stopped running, advance_of_stopped running]
      exact .silent within

structure Presented (raw decimal : Outcome Printer Unit) : Prop where
  result : decimal.result = raw.result
  machine : decimal.machine = raw.machine
  lines : decimal.out.written.toList =
    raw.out.written.toList.flatMap Presentation.decimal.render

theorem advance_decimal (budget : Nat) (m : Machine) {raw decimal : Array UInt8}
    (lines : decimal.toList = raw.toList.flatMap Presentation.decimal.render) :
    Presented (advance budget m (.endless .raw raw))
      (advance budget m (.endless .decimal decimal)) := by
  induction budget generalizing m raw decimal with
  | zero => exact ⟨rfl, rfl, lines⟩
  | succ budget ih =>
    by_cases running : m.state = .running
    · obtain ⟨f, after, step⟩ | ⟨i, after, step⟩ | ⟨i, after, b, -, -, step⟩ := m.step_cases
      · rw [advance_of_error running (step _), advance_of_error running (step _)]
        exact ⟨rfl, rfl, lines⟩
      · rw [advance_of_ok (step _), advance_of_ok (step _)]
        exact ih after lines
      · have one := step (Printer.endless .raw raw)
        have line := step (Printer.endless .decimal decimal)
        rw [Printer.write_endless] at one line
        rw [advance_of_ok one, advance_of_ok line]
        refine ih after ?_
        simp only [Array.toList_appendList, lines, List.flatMap_append, Presentation.render_raw,
          List.flatMap_singleton]
    · rw [advance_of_stopped running, advance_of_stopped running]
      exact ⟨rfl, rfl, lines⟩

theorem counted_congr {σ : Type} {start : UInt64} {one two : Outcome σ Unit}
    (result : one.result = two.result) (machine : one.machine = two.machine) :
    (one.counted start).result = (two.counted start).result := by
  simp only [Outcome.counted, result, machine]

/-- Beside a run with a sink that takes everything, the same run with a sink that has little
room, and the two presentations beside each other. If all that is printed fits, the run is the
same. Otherwise what is written is what fits, and the run ends with a refusal at the first
instruction whose byte does not fit, with everything but the state and IR as it was before.
Whether a build panics has nothing to do with the sink: it is over the budget, before a step. -/
theorem runLimited_room (m : Machine) (budget : UInt64) (room : Nat) (p : Presentation)
    (refusal : Refusal) :
    let whole := m.runLimited budget (Printer.ofPresentation p)
    let short := m.runLimited budget (⟨p, ⟨#[], some room, refusal⟩⟩ : Printer)
    let raw := m.runLimited budget (Printer.ofPresentation .raw)
    let decimal := m.runLimited budget (Printer.ofPresentation .decimal)
    (whole.out.written.size ≤ room →
      short.result = whole.result ∧ short.machine = whole.machine ∧
      short.out.written = whole.out.written) ∧
    (room < whole.out.written.size →
      short.out.written.toList = whole.out.written.toList.take room ∧
      short.result = .error (.output refusal.message) ∧
      ∃ k < budget.toNat, m.CutShort (.ofPresentation p) room k short.machine) ∧
    decimal.result = raw.result ∧ decimal.machine = raw.machine ∧
    (decimal.out.written.toList = raw.out.written.toList.flatMap fun b =>
      (Text.decimal b.toNat ++ ['\n']).map fun c => UInt8.ofNat c.toNat) ∧
    ∀ (build : Build) (out : Printer), m.runLimitedIn build budget out =
      if build.Overflows m.cycles budget then none else some (m.runLimited budget out) := by
  intro whole short raw decimal
  have none : (#[] : Array UInt8).size ≤ room := Nat.zero_le room
  have lines : (#[] : Array UInt8).toList =
      (#[] : Array UInt8).toList.flatMap Presentation.decimal.render := rfl
  have alike : m.Alike (.endless p #[]) (m.allowance budget) room refusal _ _ :=
    advance_limited _ m none
  have presented := advance_decimal (m.allowance budget) m lines
  simp only [whole, short, raw, decimal, runLimited_eq]
  refine ⟨fun fits => ?_, fun beyond => ?_, ?_, presented.machine, ?_, fun build out => ?_⟩
  · obtain ⟨result, machine, written⟩ := alike.same fits
    exact ⟨counted_congr result machine, machine, written⟩
  · obtain ⟨written, result, k, less, cut⟩ := alike.cut beyond
    have within := Nat.lt_of_lt_of_le less (m.allowance_le budget)
    exact ⟨written, congrArg (Except.map _) result, k, within, cut⟩
  · exact counted_congr presented.result presented.machine
  · exact (funext Presentation.render_decimal) ▸ presented.lines
  · rw [runLimitedIn_eq, runLimited_eq]

def printingTwo : Machine :=
  ⟨⟨#v[200, 7, 0, 0, 0, 0, 0, 0], 0, 0, 0⟩, ⟨#[0x43, 0, 0x43, 1, 0x01, 0, 0, 0], by decide⟩,
    .running, 0, none⟩

/-- The room ends between the first number and the end of its line. -/
theorem runLimited_room_printingTwo :
    let whole := printingTwo.runLimited 5 (Printer.ofPresentation .decimal)
    let short := printingTwo.runLimited 5 (⟨.decimal, ⟨#[], some 3, .closed⟩⟩ : Printer)
    whole.out.written = #[50, 48, 48, 10, 55, 10] ∧ 3 < whole.out.written.size ∧
      short.out.written.toList = whole.out.written.toList.take 3 ∧
      short.result = .error (.output "closed") := by
  intro whole short
  have all : whole.out.written = #[50, 48, 48, 10, 55, 10] := by
    simp only [whole, runLimited_eq]
    rfl
  have beyond : 3 < whole.out.written.size := all ▸ by decide
  obtain ⟨written, result, -⟩ := (runLimited_room printingTwo 5 3 .decimal .closed).2.1 beyond
  exact ⟨all, beyond, written, result⟩

end Machine

end ByteMachine
