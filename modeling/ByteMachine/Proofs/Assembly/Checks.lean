import ByteMachine.Proofs.Assembly.Grammar
import ByteMachine.Proofs.Assembly.Rules

/-! Each function that reads a part of a line succeeds if the part keeps the rules and fails with
the first check that it does not pass. -/
namespace ByteMachine

namespace Except
variable {ε α β : Type}

theorem Exact.mapM {f : α → Except ε β} {Succeeds : α → β → Prop} {Fails : α → ε → Prop}
    (each : ∀ x, Exact (f x) (Succeeds x) (Fails x)) (xs : List α) :
    Exact (xs.mapM f) (List.Forall₂ Succeeds xs) (First Fails xs) := by
  induction xs with
  | nil =>
    refine ⟨fun ys => ?_, fun e => ?_⟩
    · rw [List.mapM_nil, pure_eq_ok_iff, List.forall₂_nil_left_iff, eq_comm]
    · exact iff_of_false nofun first_nil
  | cons x xs ih =>
    have fine : (∀ e, ¬ Fails x e) ↔ ∃ y, f x = .ok y := by
      simp only [← (each x).error]
      cases f x <;> simp
    refine ⟨fun zs => ?_, fun e => ?_⟩
    · simp only [List.mapM_cons, bind_eq_ok_iff, pure_eq_ok_iff, List.forall₂_cons_left_iff,
        (each x).ok, ih.ok]
      constructor
      · rintro ⟨y, first, ys, rest, rfl⟩
        exact ⟨y, ys, first, rest, rfl⟩
      · rintro ⟨y, ys, first, rest, rfl⟩
        exact ⟨y, first, ys, rest, rfl⟩
    · simp only [List.mapM_cons, first_cons, fine, bind_eq_error_iff, (each x).error]
      refine or_congr_right ⟨?_, ?_⟩
      · rintro ⟨y, read, wrong | ⟨ys, -, wrong⟩⟩
        · exact ⟨⟨y, read⟩, (ih.error e).1 wrong⟩
        · cases wrong
      · rintro ⟨⟨y, read⟩, wrong⟩
        exact ⟨y, read, .inl ((ih.error e).2 wrong)⟩

end Except

namespace Assembly
open Text

/-! ### Operands -/

def argument : Argument → Except Cause Piece
  | .register text => (register text).map .byte
  | .value text => value text

theorem arguments_eq_mapM {op : Opcode} {texts : List (List Char)}
    (count : texts.length = op.operands) :
    arguments op texts = (argumentsOf op texts).mapM argument := by
  by_cases load : op = .ldi
  · subst load
    obtain ⟨target, source, rfl⟩ := List.length_eq_two.1 count
    simp only [arguments, argumentsOf, List.mapM_cons, List.mapM_nil, argument]
    cases register target with
    | error cause => rfl
    | ok r => cases value source <;> rfl
  · have registers : argumentsOf op texts = texts.map .register := by
      cases op with
      | ldi => exact absurd rfl load
      | _ => rfl
    rw [arguments_of_ne_ldi load, registers, List.mapM_map]
    rfl

theorem literal_eq_malformed_iff {t : List Char} : literal t = .malformed ↔
    StartsNumber t ∧ ∀ z, Numeral t z → ¬ fitsWord z := by
  have start : StartsNumber t ↔ literal t ≠ .other := by
    rw [Ne, literal_eq_other_iff, not_not]
  have none : (∀ z, Numeral t z → ¬ fitsWord z) ↔ ∀ z, literal t ≠ .number z := by
    simp only [Ne, literal_eq_number_iff, not_and]
  rw [start, none]
  cases literal t <;> simp

theorem register_of_other {t : List Char} (other : ∀ r, ¬ RegisterOperand t r) :
    register t = .error (.badRegister t) := by
  cases read : register t with
  | ok r => exact absurd (register_eq_ok_iff.1 read) (other r)
  | error cause =>
    simp only [register] at read
    split at read
    · split at read
      · cases read
      · exact read.symm
    · exact read.symm

theorem argument_exact (a : Argument) : Except.Exact (argument a) a.Emits a.Mistake := by
  refine .of_total ?_ ?_ ?_
  · rintro piece (operand | numeral | other)
    · rw [argument, register_eq_ok_iff.2 operand]
      rfl
    · exact value_eq_ok_iff.2 (.inl ⟨_, numeral, rfl⟩)
    · exact value_eq_ok_iff.2 (.inr ⟨other, rfl⟩)
  · rintro cause (other | ⟨start, other⟩ | ⟨numeral, fits, large⟩)
    · rw [argument, register_of_other other]
      rfl
    · rw [argument, value, literal_eq_malformed_iff.2 ⟨start, other⟩]
    · simp only [argument, value, literal_eq_number_iff.2 ⟨numeral, fits⟩, if_neg large]
  · cases a with
    | register t =>
      by_cases operand : ∃ r, RegisterOperand t r
      · obtain ⟨r, operand⟩ := operand
        exact .inl ⟨_, .register operand⟩
      · exact .inr ⟨_, .register (not_exists.1 operand)⟩
    | value t =>
      cases read : literal t with
      | number z =>
        obtain ⟨numeral, fits⟩ := literal_eq_number_iff.1 read
        by_cases small : 0 ≤ z ∧ z ≤ 255
        · have byte : ((UInt8.ofNat z.toNat).toNat : Int) = z := by
            rw [UInt8.toNat_ofNat']
            omega
          exact .inl ⟨_, .number (byte ▸ numeral)⟩
        · exact .inr ⟨_, .outOfRange numeral fits small⟩
      | malformed =>
        obtain ⟨start, other⟩ := literal_eq_malformed_iff.1 read
        exact .inr ⟨_, .malformed start other⟩
      | other => exact .inl ⟨_, .label (literal_eq_other_iff.1 read)⟩

/-! ### Statements -/

theorem arguments_exact {op : Opcode} {texts : List (List Char)}
    (count : texts.length = op.operands) : Except.Exact (arguments op texts)
      (List.Forall₂ Argument.Emits (argumentsOf op texts))
      (Except.First Argument.Mistake (argumentsOf op texts)) :=
  arguments_eq_mapM count ▸ .mapM argument_exact _

theorem values_exact (texts : List (List Char)) : Except.Exact (texts.mapM value)
    (List.Forall₂ Argument.Emits (texts.map .value))
    (Except.First Argument.Mistake (texts.map .value)) := by
  have same : texts.mapM value = (texts.map .value).mapM argument := by
    rw [List.mapM_map]
    rfl
  exact same ▸ .mapM argument_exact _

section Statement
variable {body word : List Char} {texts : List (List Char)}

theorem DataWord.ne_nil (name : DataWord word) : uppercase word ≠ [] := by
  rcases name with same | same <;> rw [same] <;> decide

theorem statement_of_phrase (filled : body ≠ []) (phrase : Phrase body word texts) :
    statement body =
      if isDataDirective (uppercase word) then
        if texts = [] then .error .missingValue else texts.mapM value
      else match Opcode.ofMnemonic? (uppercase word) with
        | none => .error (.unknownMnemonic (uppercase word))
        | some op =>
          if texts.length = op.operands then (arguments op texts).map (.byte op.byte :: ·)
          else .error (.operandCount op texts.length) := by
  obtain ⟨rfl, rfl⟩ := phrase_iff.1 phrase
  exact if_neg filled

theorem statement_of_mistake {cause : Cause} (mistake : StatementMistake body cause) :
    statement body = .error cause := by
  cases mistake with
  | missingValue phrase name =>
    rw [statement_of_phrase (phrase.ne_nil name.ne_nil) phrase,
      if_pos (isDataDirective_iff.2 name), if_pos rfl]
  | unknownMnemonic filled phrase noData unknown =>
    have none : Opcode.ofMnemonic? (uppercase _) = none := Option.eq_none_iff_forall_not_mem.2
      fun op found => unknown op (Opcode.ofMnemonic?_uppercase.1 found)
    rw [statement_of_phrase filled phrase, if_neg (mt isDataDirective_iff.1 noData), none]
  | @operandCount op _ _ _ phrase name other =>
    have noData : isDataDirective op.mnemonic.toList = false := by cases op <;> decide
    rw [statement_of_phrase (phrase.ne_nil (name ▸ op.mnemonic_ne_nil)) phrase, name,
      op.ofMnemonic?_mnemonic]
    simp only [noData, Bool.false_eq_true, if_false, if_neg other]
  | value phrase name first =>
    have filled := fun none => Except.first_nil (List.map_eq_nil_iff.2 none ▸ first)
    rw [statement_of_directive phrase name filled]
    exact ((values_exact _).error _).2 first
  | operand phrase name count first =>
    rw [statement_of_opcode phrase name count, ((arguments_exact count).error _).2 first]
    rfl

theorem statement_of_emits {pieces : List Piece} (emits : Emits body pieces) :
    statement body = .ok pieces := by
  cases emits with
  | blank => rfl
  | data phrase name filled each =>
    rw [statement_of_directive phrase name filled]
    exact ((values_exact _).ok _).2 each
  | instruction phrase name count each =>
    rw [statement_of_opcode phrase name count, ((arguments_exact count).ok _).2 each]
    rfl

theorem emits_or_mistake (body : List Char) :
    (∃ pieces, Emits body pieces) ∨ ∃ cause, StatementMistake body cause := by
  by_cases filled : body = []
  · exact .inl ⟨[], filled ▸ .blank⟩
  obtain ⟨word, texts, phrase⟩ : ∃ word texts, Phrase body word texts :=
    ⟨_, _, phrase_iff.2 ⟨rfl, rfl⟩⟩
  by_cases data : DataWord word
  · by_cases none : texts = []
    · exact .inr ⟨_, .missingValue (none ▸ phrase) data⟩
    · obtain ⟨pieces, each⟩ | ⟨cause, first⟩ := (values_exact texts).total
      · exact .inl ⟨pieces, .data phrase data none each⟩
      · exact .inr ⟨cause, .value phrase data first⟩
  by_cases known : ∃ op : Opcode, uppercase word = op.mnemonic.toList
  · obtain ⟨op, name⟩ := known
    by_cases count : texts.length = op.operands
    · obtain ⟨pieces, each⟩ | ⟨cause, first⟩ := (arguments_exact count).total
      · exact .inl ⟨_, .instruction phrase name count each⟩
      · exact .inr ⟨cause, .operand phrase name count first⟩
    · exact .inr ⟨_, .operandCount phrase name count⟩
  · exact .inr ⟨_, .unknownMnemonic filled phrase data (not_exists.1 known)⟩

end Statement

theorem statement_exact (body : List Char) :
    Except.Exact (statement body) (Emits body) (StatementMistake body) :=
  .of_total (fun _ => statement_of_emits) (fun _ => statement_of_mistake) (emits_or_mistake body)

theorem denotes_iff_emits {address : Addresses} {body : List Char} {bytes : List UInt8} :
    Denotes address body bytes ↔ ∃ pieces, Emits body pieces ∧
      List.Forall₂ (fun piece b => piece.Stands address b) pieces bytes := by
  simp only [← denotes_iff, (statement_exact body).ok]

/-! ### Lines -/

section Line
variable {t front : List Char} {labels : Labels} {offset : Nat} {known : List Char → Prop}

theorem ofText_label_eq_some_iff : (Line.ofText t).label = some front ↔
    ∃ code after, Uncommented t code ∧ Padded code (front ++ ':' :: after) ∧ ':' ∉ front := by
  constructor
  · intro labelled
    by_cases colon : ':' ∈ trim (code t)
    · obtain ⟨before, after, text, first⟩ := List.eq_append_cons_of_mem colon
      rw [Line.ofText_of_colon text first] at labelled
      cases labelled
      exact ⟨_, after, uncommented_iff.2 rfl, trim_eq_iff.1 text, first⟩
    · rw [Line.ofText_of_single colon] at labelled
      cases labelled
  · rintro ⟨code, after, cut, trimmed, first⟩
    obtain rfl := uncommented_iff.1 cut
    rw [Line.ofText_of_colon (trim_eq_iff.2 trimmed) first]

theorem labelName_eq_error_iff {cause : Cause} : labelName front = .error cause ↔
    .badLabel front = cause ∧ ∃ name, Padded front name ∧ (name = [] ∨ ∃ c ∈ name, isBlank c) := by
  have bad : (∃ name, Padded front name ∧ (name = [] ∨ ∃ c ∈ name, isBlank c)) ↔
      uppercase (trim front) = [] ∨ (uppercase (trim front)).any isBlank := by
    simp only [← trim_eq_iff, exists_eq_left', List.any_eq_true, uppercase_eq_nil_iff,
      exists_blank_uppercase]
  rw [bad, labelName]
  split
  · next wrong => rw [Except.error.injEq, and_iff_left wrong]
  · next right => exact iff_of_false (by simp) fun both => right both.2

def Accepted (labels : Labels) (offset : Nat) (t : List Char) (read : Labels × List Piece) : Prop :=
  ∃ line : SourceLine, Spells t line ∧ (∀ label ∈ line.label, labels.lookup label = none) ∧
    line.define labels offset = read.1 ∧ Emits line.body read.2

theorem readLine_of_mistake (labelled : ∀ label, known label ↔ labels.lookup label ≠ none)
    {cause : Cause} (mistake : LineMistake known t cause) :
    readLine labels offset t = .error cause := by
  rw [readLine, Except.bind_eq_error_iff]
  cases mistake with
  | badLabel cut trimmed first label bad =>
    left
    rw [ofText_label_eq_some_iff.2 ⟨_, _, cut, trimmed, first⟩, define,
      labelName_eq_error_iff.2 ⟨rfl, _, label, bad⟩]
    rfl
  | duplicateLabel spells taken =>
    left
    obtain ⟨names, -⟩ := spells_iff.1 spells
    generalize (Line.ofText t).label = text at names
    obtain ⟨name⟩ := names
    obtain ⟨place, found⟩ := Option.ne_none_iff_exists'.1 ((labelled _).1 taken)
    rw [define, name]
    simp only [bind, Except.bind, found, Option.isSome_some, if_true]
    rfl
  | statement spells fresh mistake =>
    right
    have free := fun label mem => Decidable.not_not.1 ((labelled label).not.1 (fresh label mem))
    refine ⟨_, define_of_spells spells free, ?_⟩
    rw [(spells_iff.1 spells).2, statement_of_mistake mistake]
    rfl

theorem accepted_or_mistake (labelled : ∀ label, known label ↔ labels.lookup label ≠ none)
    (offset : Nat) (t : List Char) :
    (∃ read, Accepted labels offset t read) ∨ ∃ cause, LineMistake known t cause := by
  have statement {line : SourceLine} (spells : Spells t line)
      (free : ∀ label ∈ line.label, labels.lookup label = none) :
      (∃ read, Accepted labels offset t read) ∨ ∃ cause, LineMistake known t cause := by
    obtain ⟨pieces, emits⟩ | ⟨cause, mistake⟩ := emits_or_mistake line.body
    · exact .inl ⟨(_, pieces), line, spells, free, rfl, emits⟩
    · exact .inr ⟨cause, .statement spells
        (fun label mem taken => (labelled label).1 taken (free label mem)) mistake⟩
  cases text : (Line.ofText t).label with
  | none => exact statement (spells_of_none text) nofun
  | some front =>
    cases name : labelName front with
    | error cause =>
      obtain ⟨-, inner, label, bad⟩ := labelName_eq_error_iff.1 name
      obtain ⟨code, after, cut, trimmed, first⟩ := ofText_label_eq_some_iff.1 text
      exact .inr ⟨_, .badLabel cut trimmed first label bad⟩
    | ok label =>
      have spells : Spells t ⟨some label, (Line.ofText t).body⟩ := spells_of_some text name
      by_cases free : labels.lookup label = none
      · refine statement spells ?_
        rintro _ ⟨⟩
        exact free
      · exact .inr ⟨_, .duplicateLabel spells ((labelled label).2 free)⟩

theorem readLine_exact (labelled : ∀ label, known label ↔ labels.lookup label ≠ none)
    (offset : Nat) (t : List Char) :
    Except.Exact (readLine labels offset t) (Accepted labels offset t) (LineMistake known t) := by
  refine .of_total ?_ (fun _ => readLine_of_mistake labelled)
    (accepted_or_mistake labelled offset t)
  rintro ⟨after, pieces⟩ ⟨line, spells, free, defined, emits⟩
  exact readLine_iff.2 ⟨line, spells, free, defined, statement_of_emits emits⟩

end Line

end Assembly

end ByteMachine
