import ByteMachine.Proofs.Assembly.Checks
import ByteMachine.Proofs.Assembly.Draft
import ByteMachine.Proofs.Text.Lowercase

/-! The case of ASCII letters makes no difference to the assembler. Each function that reads a part
of a text comes to the same if the letters of that part are made small first, except that an error
then quotes them so; hence texts with the same small letters come to the same. -/
namespace ByteMachine.Assembly
open Text
variable {t : List Char} {labels : Labels} {number offset : Nat}

/-- A cause that quotes the source in small letters. Names are in capital letters in any case. -/
def Cause.lowercased : Cause → Cause
  | badLabel text => badLabel (asciiLowercase text)
  | badRegister operand => badRegister (asciiLowercase operand)
  | badNumber operand => badNumber (asciiLowercase operand)
  | cause => cause

theorem Cause.kind_lowercased (cause : Cause) : cause.lowercased.kind = cause.kind := by
  cases cause <;> rfl

def Error.lowercased (e : Error) : Error := ⟨e.line, e.cause.lowercased⟩

/-! ### Operands -/

theorem registerOperand_asciiLowercase {r : UInt8} :
    RegisterOperand (asciiLowercase t) r ↔ RegisterOperand t r := by
  constructor
  · intro operand
    generalize lower : asciiLowercase t = small at operand
    obtain ⟨mark, unsigned, valid⟩ := operand
    obtain ⟨c, rest, rfl, same, rfl⟩ := List.map_eq_cons_iff.1 lower
    have letter : c = 'R' ∨ c = 'r' := by
      obtain rfl | rfl := mark
      · have twice := toLower_toLower c
        rw [same] at twice
        exact absurd twice (by decide)
      · exact ((toLower_eq_small rfl c).1 same).symm
    exact .intro letter (unsigned_asciiLowercase.1 unsigned) valid
  · rintro ⟨mark, unsigned, valid⟩
    refine .intro (.inr ?_) (unsigned_asciiLowercase.2 unsigned) valid
    obtain rfl | rfl := mark <;> rfl

theorem register_asciiLowercase (t : List Char) :
    register (asciiLowercase t) = (register t).mapError Cause.lowercased := by
  by_cases operand : ∃ r, RegisterOperand t r
  · obtain ⟨r, operand⟩ := operand
    have small := registerOperand_asciiLowercase.2 operand
    rw [register_eq_ok_iff.2 operand, register_eq_ok_iff.2 small]
    rfl
  · have other := not_exists.1 operand
    rw [register_of_other other,
      register_of_other fun r => mt registerOperand_asciiLowercase.1 (other r)]
    rfl

theorem value_asciiLowercase (t : List Char) :
    value (asciiLowercase t) = (value t).mapError Cause.lowercased := by
  have same : literal (asciiLowercase t) = literal t := by
    rw [literal, literal, asciiLowercase_asciiLowercase]
  rw [value, value, same, uppercase_asciiLowercase]
  cases literal t with
  | number n => dsimp only; split <;> rfl
  | malformed => rfl
  | other => rfl

theorem operands_asciiLowercase (t : List Char) :
    operands (asciiLowercase t) = (operands t).map asciiLowercase := by
  have none : asciiLowercase t = [] ↔ t = [] := List.map_eq_nil_iff
  by_cases blank : t = []
  · rw [operands, if_pos (none.2 blank), operands, if_pos blank]
    rfl
  · rw [operands, if_neg (mt none.1 blank), operands, if_neg blank, fields_asciiLowercase rfl,
      List.map_map, List.map_map]
    exact List.map_congr_left fun field _ => trim_asciiLowercase field

theorem values_asciiLowercase (texts : List (List Char)) :
    (texts.map asciiLowercase).mapM value = (texts.mapM value).mapError Cause.lowercased := by
  rw [List.mapM_map, Except.mapError_mapM]
  exact congrArg (texts.mapM ·) (funext value_asciiLowercase)

theorem arguments_asciiLowercase {op : Opcode} {texts : List (List Char)}
    (count : texts.length = op.operands) :
    arguments op (texts.map asciiLowercase) =
      (arguments op texts).mapError Cause.lowercased := by
  by_cases load : op = .ldi
  · subst load
    obtain ⟨target, source, rfl⟩ := List.length_eq_two.1 count
    simp only [arguments, List.map_cons, List.map_nil, register_asciiLowercase,
      value_asciiLowercase, Except.mapError_bind]
    rfl
  · rw [arguments_of_ne_ldi load, arguments_of_ne_ldi load, List.mapM_map, Except.mapError_mapM]
    refine congrArg (texts.mapM ·) (funext fun operand => ?_)
    rw [Except.mapError_map, ← register_asciiLowercase]
    rfl

/-! ### Lines -/

theorem Phrase.asciiLowercase {body word : List Char} {texts : List (List Char)}
    (phrase : Phrase body word texts) : Phrase (Text.asciiLowercase body)
      (Text.asciiLowercase word) (texts.map Text.asciiLowercase) := by
  obtain ⟨rfl, rfl⟩ := phrase_iff.1 phrase
  refine phrase_iff.2 ⟨firstRun_asciiLowercase body, ?_⟩
  rw [afterRun_asciiLowercase, trim_asciiLowercase, operands_asciiLowercase]

theorem statement_asciiLowercase (body : List Char) :
    statement (asciiLowercase body) = (statement body).mapError Cause.lowercased := by
  by_cases filled : body = []
  · subst filled
    rfl
  obtain ⟨word, texts, phrase⟩ : ∃ word texts, Phrase body word texts :=
    ⟨_, _, phrase_iff.2 ⟨rfl, rfl⟩⟩
  have filledToo : asciiLowercase body ≠ [] := mt List.map_eq_nil_iff.1 filled
  rw [statement_of_phrase filled phrase, statement_of_phrase filledToo phrase.asciiLowercase,
    uppercase_asciiLowercase, List.length_map]
  split
  · by_cases none : texts = []
    · subst none
      rfl
    · rw [if_neg none, if_neg (mt List.map_eq_nil_iff.1 none), values_asciiLowercase]
  · cases Opcode.ofMnemonic? (uppercase word) with
    | none => rfl
    | some op =>
      by_cases count : texts.length = op.operands
      · simp only [if_pos count, arguments_asciiLowercase count, Except.mapError_map]
      · simp only [if_neg count]
        rfl

theorem code_asciiLowercase (t : List Char) : code (asciiLowercase t) = asciiLowercase (code t) :=
  before_asciiLowercase (fun c => by rw [beq_toLower rfl, beq_toLower rfl]) t

theorem ofText_asciiLowercase (t : List Char) :
    Line.ofText (asciiLowercase t) =
      ⟨(Line.ofText t).label.map asciiLowercase, asciiLowercase (Line.ofText t).body⟩ := by
  have small : trim (code (asciiLowercase t)) = asciiLowercase (trim (code t)) := by
    rw [code_asciiLowercase, trim_asciiLowercase]
  by_cases colon : ':' ∈ trim (code t)
  · obtain ⟨front, after, text, first⟩ := List.eq_append_cons_of_mem colon
    have split : asciiLowercase (front ++ ':' :: after) =
        asciiLowercase front ++ ':' :: asciiLowercase after := List.map_append
    rw [Line.ofText_of_colon text first, Line.ofText_of_colon (small.trans (text ▸ split))
      (mt (mem_asciiLowercase rfl).1 first), trim_asciiLowercase]
    rfl
  · have single : ':' ∉ trim (code (asciiLowercase t)) :=
      small ▸ mt (mem_asciiLowercase rfl).1 colon
    rw [Line.ofText_of_single colon, Line.ofText_of_single single, small]
    rfl

theorem labelName_asciiLowercase (text : List Char) :
    labelName (asciiLowercase text) = (labelName text).mapError Cause.lowercased := by
  rw [labelName, labelName, trim_asciiLowercase, uppercase_asciiLowercase]
  split <;> rfl

theorem define_asciiLowercase (label : Option (List Char)) :
    define labels offset (label.map asciiLowercase) =
      (define labels offset label).mapError Cause.lowercased := by
  cases label with
  | none => rfl
  | some text =>
    change (labelName (asciiLowercase text) >>= _) = (labelName text >>= _).mapError _
    rw [labelName_asciiLowercase, Except.mapError_bind]
    refine congrArg _ (funext fun name => ?_)
    split <;> rfl

theorem readLine_asciiLowercase (t : List Char) :
    readLine labels offset (asciiLowercase t) =
      (readLine labels offset t).mapError Cause.lowercased := by
  rw [readLine, readLine, ofText_asciiLowercase]
  simp only [define_asciiLowercase, statement_asciiLowercase, Except.mapError_bind]
  rfl

theorem layout_asciiLowercase (texts : List (List Char)) :
    layout number offset labels (texts.map asciiLowercase) =
      (layout number offset labels texts).mapError Error.lowercased := by
  induction texts generalizing number offset labels with
  | nil => rfl
  | cons t texts ih =>
    rw [List.map_cons, layout, layout, readLine_asciiLowercase]
    cases readLine labels offset t with
    | error cause => rfl
    | ok read =>
      obtain ⟨after, pieces⟩ := read
      change (layout _ _ after (texts.map asciiLowercase)).map _ =
        Except.mapError _ (Except.map _ _)
      rw [ih, Except.mapError_map]

theorem resolve_lowercased (piece : Nat × Piece) :
    (resolve labels piece).mapError Error.lowercased = resolve labels piece := by
  obtain ⟨line, b | label⟩ := piece
  · rfl
  · rw [resolve]
    cases labels.lookup label with
    | none => rfl
    | some place => dsimp only; split <;> rfl

theorem assembleText_asciiLowercase (source : List Char) :
    assembleText (asciiLowercase source) = (assembleText source).mapError Error.lowercased := by
  rw [assembleText_eq_layout, assembleText_eq_layout, lines_asciiLowercase, layout_asciiLowercase,
    Except.mapError_bind]
  simp only [Except.mapError_mapM, resolve_lowercased]

/-- Texts that are the same up to the case of ASCII letters, wherever these stand, come to the same
bytes, or to errors of one kind on one line which quote the same text up to that case. -/
theorem assemble_sameUpToCase {first second : String}
    (same : sameUpToCase first.toList second.toList) :
    (∃ bytes, assemble first = .ok bytes ∧ assemble second = .ok bytes) ∨
      ∃ e e', assemble first = .error e ∧ assemble second = .error e' ∧ e.line = e'.line ∧
        e.cause.kind = e'.cause.kind ∧ e.cause.lowercased = e'.cause.lowercased := by
  have small : asciiLowercase first.toList = asciiLowercase second.toList := beq_iff_eq.1 same
  have both : (assemble first).mapError Error.lowercased =
      (assemble second).mapError Error.lowercased := by
    rw [assemble, assemble, ← assembleText_asciiLowercase, ← assembleText_asciiLowercase, small]
  cases left : assemble first with
  | ok bytes =>
    rw [left, Except.mapError_ok, eq_comm, Except.mapError_eq_ok_iff] at both
    exact .inl ⟨bytes, rfl, both⟩
  | error e =>
    cases right : assemble second with
    | ok bytes =>
      rw [left, right] at both
      cases both
    | error e' =>
      rw [left, right] at both
      obtain ⟨lines, causes⟩ := Error.mk.inj (Except.error.inj both)
      have kinds := congrArg Cause.kind causes
      rw [Cause.kind_lowercased, Cause.kind_lowercased] at kinds
      exact .inr ⟨e, e', rfl, rfl, lines, kinds, causes⟩

theorem assemble_sameUpToCase_mixed :
    sameUpToCase "ldi R1, 0XfE ; On\nend: Data END".toList
      "LDI r1, 0xFe ; oN\nEnd: dATA eND".toList ∧
    assemble "ldi R1, 0XfE ; On\nend: Data END" = .ok [0x99, 1, 0xFE, 3] ∧
    assemble "LDI r1, 0xFe ; oN\nEnd: dATA eND" = .ok [0x99, 1, 0xFE, 3] := by
  have first : assemble "ldi R1, 0XfE ; On\nend: Data END" = .ok [0x99, 1, 0xFE, 3] := rfl
  have same : sameUpToCase "ldi R1, 0XfE ; On\nend: Data END".toList
      "LDI r1, 0xFe ; oN\nEnd: dATA eND".toList := rfl
  obtain ⟨bytes, left, right⟩ | ⟨e, -, failed, -⟩ := assemble_sameUpToCase same
  · rw [Except.ok.inj (first.symm.trans left)]
    exact ⟨same, left, right⟩
  · cases first.symm.trans failed

end ByteMachine.Assembly
