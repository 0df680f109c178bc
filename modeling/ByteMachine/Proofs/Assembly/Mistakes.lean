import ByteMachine.Proofs.Assembly.Checks
import ByteMachine.Proofs.Assembly.Correctness

/-! What is wrong with a text is reported by the first line that breaks the rules, whatever stands
behind it, and only if there is none by the first reference to a label that is no byte. -/
namespace ByteMachine.Assembly
open Text
variable {t label : List Char} {texts earlier : List (List Char)} {labels : Labels}
  {number offset n : Nat} {cause : Cause} {e : Error}

/-! ### Labels -/

theorem Spells.unique {first second : SourceLine} (left : Spells t first)
    (right : Spells t second) : first = second := by
  obtain ⟨label, body⟩ := first
  obtain ⟨other, rest⟩ := second
  obtain ⟨names, rfl⟩ := spells_iff.1 left
  obtain ⟨others, rfl⟩ := spells_iff.1 right
  generalize (Line.ofText t).label = text at names others
  cases names with
  | none =>
    cases others
    rfl
  | some name =>
    obtain ⟨same⟩ := others
    rw [Except.ok.inj (name.symm.trans same)]

theorem Spells.defines_iff {line : SourceLine} (spells : Spells t line) :
    (∃ body, Spells t ⟨some label, body⟩) ↔ line.label = some label := by
  constructor
  · rintro ⟨body, other⟩
    rw [spells.unique other]
  · intro defines
    obtain ⟨_, body⟩ := line
    cases defines
    exact ⟨body, spells⟩

theorem defined_append (earlier : List (List Char)) (t label : List Char) :
    Defined (earlier ++ [t]) label ↔
      Defined earlier label ∨ ∃ body, Spells t ⟨some label, body⟩ := by
  simp only [Defined, List.mem_append, List.mem_singleton, or_and_right, exists_or,
    exists_eq_left]

theorem lookup_define_ne_none (line : SourceLine) :
    (line.define labels offset).lookup label ≠ none ↔
      labels.lookup label ≠ none ∨ line.label = some label := by
  obtain ⟨_ | name, body⟩ := line
  · simp [SourceLine.define]
  · change List.lookup label ((name, offset) :: labels) ≠ none ↔ _
    rw [lookup_cons]
    split
    · next same => simp [same]
    · next other => simp [eq_comm.not.1 other]

theorem defined_define {line : SourceLine} (spells : Spells t line)
    (labelled : ∀ label, Defined earlier label ↔ labels.lookup label ≠ none) (label : List Char) :
    Defined (earlier ++ [t]) label ↔ (line.define labels offset).lookup label ≠ none := by
  rw [defined_append, lookup_define_ne_none, labelled, spells.defines_iff]

/-! ### Lines -/

theorem broken_append (earlier : List (List Char)) (t : List Char) (texts : List (List Char)) :
    Broken (earlier ++ t :: texts) earlier.length cause ↔
      LineMistake (Defined earlier) t cause := by
  simp [Broken]

theorem layout_eq_error_iff
    (labelled : ∀ label, Defined earlier label ↔ labels.lookup label ≠ none) :
    layout number offset labels texts = .error e ↔
      ∃ i, Broken (earlier ++ texts) (earlier.length + i) e.cause ∧
        (∀ j < i, ∀ other, ¬ Broken (earlier ++ texts) (earlier.length + j) other) ∧
          e.line = number + i := by
  induction texts generalizing earlier labels number offset with
  | nil =>
    refine iff_of_false (by simp [layout]) ?_
    rintro ⟨i, ⟨t, place, -⟩, -⟩
    simp at place
  | cons t texts ih =>
    have exact := readLine_exact labelled offset t
    have here (other : Cause) : Broken (earlier ++ t :: texts) earlier.length other ↔
        readLine labels offset t = .error other :=
      (broken_append earlier t texts).trans (exact.error other).symm
    rw [layout]
    cases read : readLine labels offset t with
    | error cause =>
      constructor
      · rintro ⟨⟩
        exact ⟨0, (here cause).2 read, fun j below => absurd below (Nat.not_lt_zero j), rfl⟩
      · rintro ⟨_ | i, found, first, line⟩
        · rw [Except.error.inj (read.symm.trans ((here _).1 found))]
          exact congrArg Except.error (congrArg (Error.mk · e.cause) line.symm)
        · exact absurd ((here cause).2 read) (first 0 (Nat.succ_pos i) cause)
    | ok known =>
      obtain ⟨after, pieces⟩ := known
      obtain ⟨line, spells, -, rfl, -⟩ := (exact.ok _).1 read
      have right (other : Cause) : ¬ Broken (earlier ++ t :: texts) earlier.length other := by
        simp [here, read]
      have shift (i : Nat) : earlier.length + 1 + i = earlier.length + (i + 1) := by omega
      simp only [Except.map_eq_error_iff, ih (defined_define spells labelled), List.append_assoc,
        List.singleton_append, List.length_append, List.length_singleton, shift]
      constructor
      · rintro ⟨i, found, first, line⟩
        refine ⟨i + 1, found, fun j below => ?_, by omega⟩
        cases j with
        | zero => exact right
        | succ j => exact first j (Nat.lt_of_succ_lt_succ below)
      · rintro ⟨_ | i, found, first, line⟩
        · exact absurd found (right _)
        · exact ⟨i, found, fun j below => first (j + 1) (Nat.succ_lt_succ below), by omega⟩

/-! ### Layout -/

theorem numbered_cons (number : Nat) (pieces : List Piece) (chunks : List (List Piece)) :
    numbered number (pieces :: chunks) =
      pieces.map (number, ·) ++ numbered (number + 1) chunks := by
  rw [numbered, List.zipIdx_cons, List.flatMap_cons, numbered]

def labelsAfter (offset : Nat) (labels : Labels) (program : List SourceLine)
    (chunks : List (List Piece)) : Labels :=
  definitions offset labels program (chunks.map (·.map Piece.provisional))

theorem layout_eq_ok_iff {plan : Layout} : layout number offset labels texts = .ok plan ↔
    ∃ program chunks, List.Forall₂ Spells texts program ∧ Free labels (labelsOf program) ∧
      List.Forall₂ (fun line pieces => Emits line.body pieces) program chunks ∧
      plan = ⟨numbered number chunks, labelsAfter offset labels program chunks⟩ := by
  induction texts generalizing number offset labels plan with
  | nil =>
    constructor
    · rintro ⟨⟩
      exact ⟨[], [], .nil, ⟨.nil, List.forall_mem_nil _⟩, .nil, rfl⟩
    · rintro ⟨program, chunks, spelled, -, emitted, rfl⟩
      cases spelled
      cases emitted
      rfl
  | cons t texts ih =>
    rw [layout_cons_eq_ok_iff]
    constructor
    · rintro ⟨after, pieces, more, read, rest, rfl⟩
      obtain ⟨line, spells, first, rfl, statement⟩ := readLine_iff.1 read
      have emits := ((statement_exact _).ok _).1 statement
      obtain ⟨program, chunks, spelled, free, emitted, rfl⟩ := ih.1 rest
      refine ⟨line :: program, pieces :: chunks, .cons spells spelled,
        (free_cons _).2 ⟨first, free⟩, .cons emits emitted, ?_⟩
      simp [numbered_cons, labelsAfter, definitions]
    · rintro ⟨program, chunks, spelling, free, emission, rfl⟩
      obtain ⟨line, program, spells, spelled, rfl⟩ := List.forall₂_cons_left_iff.1 spelling
      obtain ⟨pieces, chunks, emits, emitted, rfl⟩ := List.forall₂_cons_left_iff.1 emission
      obtain ⟨first, free⟩ := (free_cons offset).1 free
      have read : readLine labels offset t = .ok (line.define labels offset, pieces) :=
        readLine_iff.2 ⟨line, spells, first, rfl, statement_of_emits emits⟩
      refine ⟨_, pieces, _, read, ih.2 ⟨program, chunks, spelled, free, emitted, rfl⟩, ?_⟩
      simp [numbered_cons, labelsAfter, definitions]

/-! ### References -/

section Reference
variable {program : List SourceLine} {chunks : List (List Piece)}

theorem lookup_labelsAfter (sizes : program.length = chunks.length)
    (distinct : (labelsOf program).Nodup) :
    (labelsAfter 0 [] program chunks).lookup label = some n ↔ Placed program chunks label n := by
  have sized : program.length = (chunks.map (·.map Piece.provisional)).length := by
    rw [List.length_map, sizes]
  rw [labelsAfter, lookup_definitions sized (free_blank.2 distinct)]
  simp [Address, Placed, List.length_flatten, Function.comp_def, ← List.map_take]

theorem resolve_exact (labels : Labels) (piece : Nat × Piece) :
    Except.Exact (resolve labels piece)
      (fun b => piece.2.Stands (fun label n => labels.lookup label = some n) b)
      (Dangling (fun label n => labels.lookup label = some n) piece) := by
  refine ⟨fun _ => resolve_eq_ok_iff, fun e => ⟨fun failed => ?_, ?_⟩⟩
  · obtain ⟨number, known | label⟩ := piece
    · cases failed
    · cases found : labels.lookup label with
      | none =>
        simp only [resolve, found] at failed
        cases failed
        exact .undefined fun n => by simp [found]
      | some offset =>
        simp only [resolve, found] at failed
        split at failed
        · cases failed
        · next large =>
          cases failed
          exact .far found (Nat.not_le.1 large)
  · rintro (nowhere | ⟨there, far⟩)
    · simp only [resolve, Option.eq_none_iff_forall_ne_some.2 nowhere]
    · simp only [resolve, there, if_neg (Nat.not_le.2 far)]

theorem layout_of_reading (reading : Reading texts program chunks) : layout 1 0 [] texts =
    .ok ⟨numbered 1 chunks, labelsAfter 0 [] program chunks⟩ :=
  layout_eq_ok_iff.2 ⟨program, chunks, reading.spelled, free_blank.2 reading.distinct,
    reading.emitted, rfl⟩

theorem Placed.unique {m : Nat} (reading : Reading texts program chunks)
    (first : Placed program chunks label m) (second : Placed program chunks label n) : m = n := by
  have sizes := reading.emitted.length_eq
  rw [← lookup_labelsAfter sizes reading.distinct] at first second
  exact Option.some.inj (first.symm.trans second)

theorem exists_dangling_iff (reading : Reading texts program chunks) {piece : Nat × Piece} :
    (∃ e, Dangling (Placed program chunks) piece e) ↔
      ∃ number label, (number, .address label) = piece ∧
        ∀ n ≤ 255, ¬ Placed program chunks label n := by
  constructor
  · rintro ⟨_, nowhere | ⟨there, far⟩⟩
    · exact ⟨_, _, rfl, fun n _ => nowhere n⟩
    · refine ⟨_, _, rfl, fun n near other => ?_⟩
      have same := Placed.unique reading there other
      omega
  · rintro ⟨number, label, rfl, outside⟩
    by_cases there : ∃ n, Placed program chunks label n
    · obtain ⟨n, there⟩ := there
      exact ⟨_, .far there (Nat.not_le.1 fun near => outside n near there)⟩
    · exact ⟨_, .undefined (not_exists.1 there)⟩

theorem assemble_of_reading {source : String}
    (reading : Reading (lines source.toList) program chunks) : assemble source =
      (numbered 1 chunks).mapM (resolve (labelsAfter 0 [] program chunks)) := by
  rw [assemble, assembleText_eq_layout, layout_of_reading reading]
  rfl

theorem assemble_exact {source : String} (reading : Reading (lines source.toList) program chunks) :
    Except.Exact (assemble source)
      (List.Forall₂ (fun piece b => piece.2.Stands (Placed program chunks) b) (numbered 1 chunks))
      (Except.First (Dangling (Placed program chunks)) (numbered 1 chunks)) := by
  have places : (fun label n => (labelsAfter 0 [] program chunks).lookup label = some n) =
      Placed program chunks := funext fun label => funext fun n =>
    propext (lookup_labelsAfter reading.emitted.length_eq reading.distinct)
  have resolved := Except.Exact.mapM (resolve_exact (labelsAfter 0 [] program chunks))
    (numbered 1 chunks)
  rw [places] at resolved
  rwa [assemble_of_reading reading]

end Reference

/-! ### Texts -/

theorem ofText_ended {whole : List Char} (ended : Ended whole t) :
    Line.ofText whole = Line.ofText t := by
  obtain ⟨blanks, blank, cut⟩ := before_ended (fun c => c == ';' || c == '#') rfl ended
  have same : trim (code whole) = trim (code t) := (congrArg trim cut).trans (trim_append blank _)
  rw [Line.ofText, Line.ofText, same]

theorem readLine_ended {whole : List Char} (ended : Ended whole t) :
    readLine labels offset whole = readLine labels offset t := by
  rw [readLine, readLine, ofText_ended ended]

theorem layout_ended {wholes : List (List Char)} (ended : List.Forall₂ Ended wholes texts) :
    layout number offset labels texts = layout number offset labels wholes := by
  induction ended generalizing number offset labels with
  | nil => rfl
  | cons first _ ih => simp only [layout, readLine_ended first, ih]

theorem layout_append_of_error (failed : layout number offset labels texts = .error e)
    (more : List (List Char)) : layout number offset labels (texts ++ more) = .error e := by
  induction texts generalizing number offset labels with
  | nil => cases failed
  | cons t texts ih =>
    rw [layout] at failed
    rw [List.cons_append, layout]
    split
    · next wrong =>
      rw [wrong] at failed
      exact failed
    · next read =>
      rw [read] at failed
      exact Except.map_eq_error_iff.2 (ih (Except.map_eq_error_iff.1 failed))

theorem assemble_of_layout {source : String}
    (failed : layout 1 0 [] (lines source.toList) = .error e) : assemble source = .error e := by
  rw [assemble, assembleText_eq_layout, failed]
  rfl

theorem assemble_append_of_layout {source : String}
    (failed : layout 1 0 [] (lines source.toList) = .error e) (more : String) :
    assemble (source ++ "\n" ++ more) = .error e := by
  obtain ⟨ls, blanks, ended, -, split⟩ := lines_append_feed source.toList
  have joined : (source ++ "\n" ++ more).toList = source.toList ++ '\n' :: more.toList := by simp
  refine assemble_of_layout ?_
  rw [joined, split, List.append_assoc]
  exact layout_append_of_error ((layout_ended ended).trans failed) _

theorem layout_blank_eq_error_iff : layout 1 0 [] texts = .error e ↔
    ∃ i, Broken texts i e.cause ∧ (∀ j < i, ∀ other, ¬ Broken texts j other) ∧ e.line = i + 1 := by
  have blank : ∀ label, Defined [] label ↔ ([] : Labels).lookup label ≠ none := by simp [Defined]
  have reported := @layout_eq_error_iff texts [] [] 1 0 e blank
  simpa [Nat.add_comm] using reported

theorem broken_or_reading (texts : List (List Char)) :
    (∃ i cause, Broken texts i cause ∧ ∀ j < i, ∀ other, ¬ Broken texts j other) ∨
      (∀ i cause, ¬ Broken texts i cause) ∧ ∃ program chunks, Reading texts program chunks := by
  cases laid : layout 1 0 [] texts with
  | error e =>
    obtain ⟨i, broken, first, -⟩ := layout_blank_eq_error_iff.1 laid
    exact .inl ⟨i, _, broken, first⟩
  | ok plan =>
    -- A line that is broken would be the first one, as those before it are not.
    have right (i : Nat) : ∀ cause, ¬ Broken texts i cause := by
      induction i using Nat.strongRecOn with
      | ind i first =>
        intro cause broken
        have failed : layout 1 0 [] texts = .error ⟨i + 1, cause⟩ :=
          layout_blank_eq_error_iff.2 ⟨i, broken, first, rfl⟩
        rw [laid] at failed
        cases failed
    obtain ⟨program, chunks, spelled, free, emitted, -⟩ := layout_eq_ok_iff.1 laid
    exact .inr ⟨right, program, chunks, spelled, free.nodup, emitted⟩

/-- What is wrong with source text. It cannot be assembled exactly if a line breaks the rules or a
label that stands for a value is nowhere or behind more than 255 bytes. If lines break the rules,
the first of them is reported, counted from one, with the first check that it fails, and no text on
further lines changes that; if none does, the first such reference is reported in their place. -/
theorem assemble_reports_first (source : String) :
    let texts := lines source.toList
    ((∃ e, assemble source = .error e) ↔ (∃ i cause, Broken texts i cause) ∨
      ∃ program chunks number label, Reading texts program chunks ∧
        (number, .address label) ∈ numbered 1 chunks ∧
          ∀ n ≤ 255, ¬ Placed program chunks label n) ∧
    (∀ i cause, Broken texts i cause → (∀ j < i, ∀ other, ¬ Broken texts j other) →
      assemble source = .error ⟨i + 1, cause⟩ ∧
        ∀ more, assemble (source ++ "\n" ++ more) = .error ⟨i + 1, cause⟩) ∧
    ((∀ i cause, ¬ Broken texts i cause) → ∃ program chunks, Reading texts program chunks ∧
      ∀ e, assemble source = .error e ↔
        Except.First (Dangling (Placed program chunks)) (numbered 1 chunks) e) := by
  intro texts
  have reported {i : Nat} {cause : Cause} (broken : Broken texts i cause)
      (first : ∀ j < i, ∀ other, ¬ Broken texts j other) :
      layout 1 0 [] texts = .error ⟨i + 1, cause⟩ :=
    layout_blank_eq_error_iff.2 ⟨i, broken, first, rfl⟩
  have dangling {program : List SourceLine} {chunks : List (List Piece)}
      (reading : Reading texts program chunks) : (∃ e, assemble source = .error e) ↔
        ∃ number label, (number, .address label) ∈ numbered 1 chunks ∧
          ∀ n ≤ 255, ¬ Placed program chunks label n := by
    simp only [(assemble_exact reading).error, Except.exists_first_iff,
      exists_dangling_iff reading]
    constructor
    · rintro ⟨_, mem, number, label, rfl, outside⟩
      exact ⟨number, label, mem, outside⟩
    · rintro ⟨number, label, mem, outside⟩
      exact ⟨_, mem, number, label, rfl, outside⟩
  refine ⟨?_, fun i cause broken first => ?_, fun right => ?_⟩
  · obtain ⟨i, cause, broken, first⟩ | ⟨right, program, chunks, reading⟩ := broken_or_reading texts
    · exact iff_of_true ⟨_, assemble_of_layout (reported broken first)⟩ (.inl ⟨i, cause, broken⟩)
    · constructor
      · intro failed
        obtain ⟨number, label, mem, outside⟩ := (dangling reading).1 failed
        exact .inr ⟨program, chunks, number, label, reading, mem, outside⟩
      · rintro (⟨i, cause, broken⟩ | ⟨program, chunks, number, label, reading, mem, outside⟩)
        · exact absurd broken (right i cause)
        · exact (dangling reading).2 ⟨number, label, mem, outside⟩
  · have failed := reported broken first
    exact ⟨assemble_of_layout failed, assemble_append_of_layout failed⟩
  · obtain ⟨i, cause, broken, -⟩ | ⟨-, program, chunks, reading⟩ := broken_or_reading texts
    · exact absurd broken (right i cause)
    · exact ⟨program, chunks, reading, (assemble_exact reading).error⟩

/-- A label that is nowhere loses to a word that is no mnemonic on a later line. -/
theorem assemble_reports_first_late :
    assemble ("DB nowhere\nBOGUS" ++ "\n" ++ "nowhere:") =
      .error ⟨2, .unknownMnemonic "BOGUS".toList⟩ := by
  have failed : layout 1 0 [] (lines "DB nowhere\nBOGUS".toList) =
      .error ⟨2, .unknownMnemonic "BOGUS".toList⟩ := by rfl
  obtain ⟨i, broken, first, line⟩ := layout_blank_eq_error_iff.1 failed
  obtain rfl : 1 = i := Nat.succ.inj line
  exact ((assemble_reports_first "DB nowhere\nBOGUS").2.1 1 _ broken first).2 "nowhere:"

end ByteMachine.Assembly
