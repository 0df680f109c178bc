import ByteMachine.Proofs.Image
import ByteMachine.Proofs.Result
import Mathlib.Data.List.ReduceOption

/-! Which texts are images. Every line has to be blank up to its comment or to begin with a byte;
the first line that is neither is the one that is reported. Images that are put together line by
line are read as one image. -/
namespace ByteMachine.Image
open Text

/-! ### Lines -/

def Uncommented (line kept : List Char) : Prop :=
  '#' ∉ kept ∧ ∃ comment, (∀ c ∈ comment.head?, c = '#') ∧ kept ++ comment = line

structure Bits (token : List Char) : Prop where
  nonempty : 1 ≤ token.length
  short : token.length ≤ 8
  digits : ∀ c ∈ token, c = '0' ∨ c = '1'

/-- What a line holds: nothing, or a byte and the whole line without the blanks around it. -/
inductive Reads : List Char → Option (UInt8 × List Char) → Prop
  | nothing {line kept : List Char} (cut : Uncommented line kept) (blank : ∀ c ∈ kept, isBlank c) :
      Reads line none
  | byte {line kept token source : List Char} {b : UInt8} (cut : Uncommented line kept)
      (first : FirstWord kept token) (bits : Bits token) (value : ofDigits 2 token = b.toNat)
      (trimmed : Padded line source) : Reads line (some (b, source))

inductive Misread : List Char → List Char → Prop
  | intro {line kept token : List Char} (cut : Uncommented line kept)
      (first : FirstWord kept token) (other : ¬ Bits token) : Misread line token

def entry (line : List Char) : Except (List Char) (Option (UInt8 × List Char)) :=
  match firstWord (code line) with
  | [] => .ok none
  | token =>
    match byte? token with
    | none => .error token
    | some b => .ok (some (b, trim line))

variable {line token : List Char}

theorem code_eq_iff {kept : List Char} : code line = kept ↔ Uncommented line kept := by
  rw [code, before_eq_iff, Uncommented]
  simp only [beq_eq_false_iff_ne, beq_iff_eq]
  refine and_congr_left fun _ => ⟨fun plain mem => plain _ mem rfl, ?_⟩
  rintro plain c mem rfl
  exact plain mem

theorem isDigit_two {c : Char} : isDigit 2 c ↔ c = '0' ∨ c = '1' := by
  constructor
  · intro bit
    have small : ∀ d < 2, Nat.digitChar d = '0' ∨ Nat.digitChar d = '1' := by decide
    rw [← digitChar_digitValue (isDigit_mono (by decide) bit)]
    exact small _ (of_decide_eq_true bit)
  · rintro (rfl | rfl) <;> decide

theorem Bits.number (bits : Bits token) : Digits 2 token (ofDigits 2 token) :=
  ⟨List.ne_nil_of_length_pos bits.nonempty, fun c mem => isDigit_two.2 (bits.digits c mem), rfl⟩

theorem byte?_of_bits {b : UInt8} (bits : Bits token) (value : ofDigits 2 token = b.toNat) :
    byte? token = some b := by
  rw [byte?, if_pos bits.short, readNat?_eq_some_iff.2 bits.number, value, Option.map_some,
    UInt8.ofNat_toNat]

theorem Bits.exists_byte (bits : Bits token) : ∃ b : UInt8, ofDigits 2 token = b.toNat := by
  have bound : ofDigits 2 token < 2 ^ token.length := ofDigits_lt bits.number.digits
  have byte : 2 ^ token.length ≤ 2 ^ 8 := Nat.pow_le_pow_right (by decide) bits.short
  refine ⟨UInt8.ofNat (ofDigits 2 token), ?_⟩
  rw [UInt8.toNat_ofNat', Nat.mod_eq_of_lt (by omega)]

theorem byte?_of_not_bits (nonempty : token ≠ []) (other : ¬ Bits token) : byte? token = none := by
  rw [byte?]
  split
  · next short =>
    rw [Option.map_eq_none_iff, Option.eq_none_iff_forall_not_mem]
    intro n read
    have number := readNat?_eq_some_iff.1 read
    exact other ⟨List.length_pos_of_ne_nil nonempty, short,
      fun c mem => isDigit_two.1 (number.digits c mem)⟩
  · rfl

theorem entry_of_first {kept : List Char} (cut : Uncommented line kept)
    (first : FirstWord kept token) :
    token ≠ [] ∧ entry line = match byte? token with
      | none => .error token
      | some b => .ok (some (b, trim line)) := by
  have word := first.firstWord_eq
  have nonempty : token ≠ [] := by
    cases first
    assumption
  refine ⟨nonempty, ?_⟩
  rw [entry, code_eq_iff.2 cut, word]
  split
  · contradiction
  · rfl

theorem entry_of_reads {e : Option (UInt8 × List Char)} (reads : Reads line e) :
    entry line = .ok e := by
  cases reads with
  | nothing cut blank => rw [entry, code_eq_iff.2 cut, firstWord_of_blank blank]
  | byte cut first bits value trimmed =>
    rw [(entry_of_first cut first).2, byte?_of_bits bits value, trim_eq_iff.2 trimmed]

theorem entry_of_misread (misread : Misread line token) : entry line = .error token := by
  obtain ⟨cut, first, other⟩ := misread
  obtain ⟨nonempty, word⟩ := entry_of_first cut first
  rw [word, byte?_of_not_bits nonempty other]

theorem reads_or_misread (line : List Char) :
    (∃ e, Reads line e) ∨ ∃ token, Misread line token := by
  have cut : Uncommented line (code line) := code_eq_iff.1 rfl
  obtain ⟨blank, -⟩ | first := firstWord_cases (code line)
  · exact .inl ⟨none, .nothing cut blank⟩
  · by_cases bits : Bits (firstWord (code line))
    · obtain ⟨b, value⟩ := bits.exists_byte
      exact .inl ⟨_, .byte cut first bits value (padded_trim line)⟩
    · exact .inr ⟨_, cut, first, bits⟩

theorem entry_exact (line : List Char) : Except.Exact (entry line) (Reads line) (Misread line) :=
  .of_total (fun _ => entry_of_reads) (fun _ => entry_of_misread) (reads_or_misread line)

theorem entry_ended {whole : List Char} (ended : Ended whole line) : entry whole = entry line := by
  obtain ⟨blanks, blank, cut⟩ := before_ended (· == '#') rfl ended
  have word : firstWord (code whole) = firstWord (code line) :=
    (congrArg firstWord cut).trans (firstWord_append blank _)
  have trimmed : trim whole = trim line := by
    obtain rfl | rfl := ended
    · rfl
    · exact trim_append (List.forall_mem_singleton.2 rfl) _
  rw [entry, entry, word, trimmed]

/-! ### Images -/

theorem exists_forall₂_iff {α β : Type} {r : α → β → Prop} {xs : List α} :
    (∃ ys, List.Forall₂ r xs ys) ↔ ∀ x ∈ xs, ∃ y, r x y := by
  induction xs with
  | nil => exact iff_of_true ⟨[], .nil⟩ (List.forall_mem_nil _)
  | cons x xs ih =>
    rw [List.forall_mem_cons, ← ih]
    constructor
    · rintro ⟨_, _ | ⟨first, rest⟩⟩
      exact ⟨⟨_, first⟩, _, rest⟩
    · rintro ⟨⟨y, first⟩, ys, rest⟩
      exact ⟨y :: ys, .cons first rest⟩

def ofEntries (entries : List (Option (UInt8 × List Char))) : Image :=
  ⟨entries.reduceOption.map Prod.fst, entries.reduceOption.map Prod.snd⟩

theorem ofEntries_append (first second : List (Option (UInt8 × List Char))) :
    ofEntries (first ++ second) = ⟨(ofEntries first).bytes ++ (ofEntries second).bytes,
      (ofEntries first).sourceLines ++ (ofEntries second).sourceLines⟩ := by
  simp only [ofEntries, List.reduceOption_append, List.map_append]

variable {number : Nat} {ls : List (List Char)}

theorem ofLines_cons (number : Nat) (line : List Char) (rest : List (List Char)) :
    ofLines number (line :: rest) =
      match entry line with
      | .error word => .error ⟨number, word⟩
      | .ok none => ofLines (number + 1) rest
      | .ok (some (b, source)) => (ofLines (number + 1) rest).map fun image =>
        ⟨b :: image.bytes, source :: image.sourceLines⟩ := by
  rw [ofLines, entry]
  generalize firstWord (code line) = token
  cases token with
  | nil => rfl
  | cons c rest => cases found : byte? (c :: rest) <;> simp only [found]

theorem ofLines_eq_ok_iff {image : Image} : ofLines number ls = .ok image ↔
    ∃ entries, entries.map .ok = ls.map entry ∧ image = ofEntries entries := by
  induction ls generalizing number image with
  | nil =>
    simp only [ofLines, List.map_nil, List.map_eq_nil_iff, exists_eq_left, Except.ok.injEq]
    exact eq_comm
  | cons line ls ih =>
    simp only [ofLines_cons, List.map_cons, List.map_eq_cons_iff]
    cases read : entry line with
    | error word => simp
    | ok e =>
      cases e with
      | none =>
        simp only [ih]
        constructor
        · rintro ⟨entries, same, rfl⟩
          exact ⟨_, ⟨none, entries, rfl, rfl, same⟩, rfl⟩
        · rintro ⟨_, ⟨e, entries, rfl, head, same⟩, rfl⟩
          cases head
          exact ⟨entries, same, rfl⟩
      | some row =>
        simp only [Except.map_eq_ok_iff, ih]
        constructor
        · rintro ⟨_, ⟨entries, same, rfl⟩, rfl⟩
          exact ⟨_, ⟨some row, entries, rfl, rfl, same⟩, rfl⟩
        · rintro ⟨_, ⟨e, entries, rfl, head, same⟩, rfl⟩
          cases head
          exact ⟨_, ⟨entries, same, rfl⟩, rfl⟩

theorem ofLines_eq_error_iff {e : ImageError} : ofLines number ls = .error e ↔
    ∃ before line after, ls = before ++ line :: after ∧
      (∀ earlier ∈ before, ∃ found, entry earlier = .ok found) ∧
      entry line = .error e.token ∧ e.line = number + before.length := by
  induction ls generalizing number with
  | nil => simp [ofLines]
  | cons line ls ih =>
    rw [ofLines_cons]
    constructor
    · intro failed
      cases read : entry line with
      | error word =>
        rw [read] at failed
        cases failed
        exact ⟨[], line, ls, rfl, List.forall_mem_nil _, read, rfl⟩
      | ok found =>
        have later : ofLines (number + 1) ls = .error e := by
          rw [read] at failed
          cases found with
          | none => exact failed
          | some row => exact Except.map_eq_error_iff.1 failed
        obtain ⟨before, wrong, after, rfl, fine, misread, counted⟩ := ih.1 later
        have total : e.line = number + (line :: before).length := by
          rw [List.length_cons, counted]
          omega
        exact ⟨line :: before, wrong, after, rfl, List.forall_mem_cons.2 ⟨⟨found, read⟩, fine⟩,
          misread, total⟩
    · rintro ⟨before, wrong, after, split, fine, misread, counted⟩
      cases before with
      | nil =>
        cases split
        rw [misread]
        exact congrArg Except.error (congrArg (ImageError.mk · e.token) counted.symm)
      | cons first before =>
        obtain ⟨rfl, rfl⟩ := List.cons.inj split
        obtain ⟨⟨found, read⟩, fine⟩ := List.forall_mem_cons.1 fine
        have total : e.line = number + 1 + before.length := by
          rw [counted, List.length_cons]
          omega
        have later := ih.2 ⟨before, wrong, after, rfl, fine, misread, total⟩
        rw [read]
        cases found with
        | none => exact later
        | some row => exact Except.map_eq_error_iff.2 later

theorem map_entry_ended {wholes : List (List Char)} (ended : List.Forall₂ Ended wholes ls) :
    ls.map entry = wholes.map entry := by
  induction ended with
  | nil => rfl
  | cons first _ ih => rw [List.map_cons, List.map_cons, entry_ended first, ih]

theorem parse_join {text other : List Char} {first second : Image} (left : parse text = .ok first)
    (right : parse other = .ok second) : parse (text ++ '\n' :: other) =
      .ok ⟨first.bytes ++ second.bytes, first.sourceLines ++ second.sourceLines⟩ := by
  obtain ⟨upper, sameUpper, rfl⟩ := ofLines_eq_ok_iff.1 left
  obtain ⟨lower, sameLower, rfl⟩ := ofLines_eq_ok_iff.1 right
  obtain ⟨ls, blanks, ended, blank, split⟩ := lines_append_feed text
  have gap : (blanks.map fun _ => none).map Except.ok = blanks.map entry := by
    rw [List.map_map]
    refine List.map_congr_left fun line mem => ?_
    rw [blank line mem]
    rfl
  have nothing : ofEntries (blanks.map fun _ => none) = empty := by
    simp [ofEntries, List.reduceOption, empty]
  refine ofLines_eq_ok_iff.2 ⟨upper ++ (blanks.map fun _ => none) ++ lower, ?_, ?_⟩
  · simp only [split, List.map_append, map_entry_ended ended, sameUpper, sameLower, gap]
  · simp only [ofEntries_append, nothing, empty, List.append_nil]

theorem forall₂_reads_iff {entries : List (Option (UInt8 × List Char))} :
    List.Forall₂ Reads ls entries ↔ entries.map .ok = ls.map entry := by
  have same : Reads = fun line e => entry line = .ok e :=
    funext fun line => funext fun e => propext ((entry_exact line).ok e).symm
  rw [same, eq_comm, ← List.forall₂_eq_eq_eq, List.forall₂_map_left_iff,
    List.forall₂_map_right_iff]

/-- Which texts are images. A text is one if every line can be read, and its bytes and source
lines are those of its lines in order; or else the first line that cannot be read is reported, by
its number from one on. Two images with a line feed between them are one image. -/
theorem parse_exact (text : List Char) :
    ((∃ image, parse text = .ok image) ↔ ∀ line ∈ lines text, ∃ e, Reads line e) ∧
    (∀ image, parse text = .ok image ↔
      ∃ entries, List.Forall₂ Reads (lines text) entries ∧ image = ofEntries entries) ∧
    (∀ image, parse text = .ok image → image.bytes.length = image.sourceLines.length) ∧
    (∀ e, parse text = .error e ↔ ∃ before line after, lines text = before ++ line :: after ∧
      (∀ earlier ∈ before, ∃ found, Reads earlier found) ∧ Misread line e.token ∧
        e.line = before.length + 1) ∧
    ∀ other first second, parse text = .ok first → parse other = .ok second →
      parse (text ++ '\n' :: other) =
        .ok ⟨first.bytes ++ second.bytes, first.sourceLines ++ second.sourceLines⟩ := by
  have accepted : ∀ image, parse text = .ok image ↔
      ∃ entries, List.Forall₂ Reads (lines text) entries ∧ image = ofEntries entries := fun image =>
    ofLines_eq_ok_iff.trans (exists_congr fun _ => and_congr_left fun _ => forall₂_reads_iff.symm)
  refine ⟨?_, accepted, ?_, fun e => ?_, fun other first second => parse_join⟩
  · rw [← exists_forall₂_iff]
    simp only [accepted]
    exact ⟨fun ⟨_, entries, reads, _⟩ => ⟨entries, reads⟩,
      fun ⟨entries, reads⟩ => ⟨_, entries, reads, rfl⟩⟩
  · rintro _ read
    obtain ⟨entries, -, rfl⟩ := (accepted _).1 read
    rw [ofEntries, List.length_map, List.length_map]
  · rw [parse, ofLines_eq_error_iff]
    simp only [(entry_exact _).ok, (entry_exact _).error, Nat.add_comm 1]

theorem parse_exact_carriageReturn :
    parse ("1 one\r".toList ++ '\n' :: "# two\n 10".toList) =
      .ok ⟨[1, 2], ["1 one".toList, "10".toList]⟩ :=
  (parse_exact "1 one\r".toList).2.2.2.2 _ ⟨[1], _⟩ ⟨[2], _⟩ rfl rfl

end ByteMachine.Image
