import ByteMachine.Proofs.Assembly.Mistakes
import ByteMachine.Proofs.Text.Digits

/-! Texts of one statement. A text that is trimmed and holds none of the characters that end a
statement, a label or a line is one line, and that line is its statement. -/
namespace ByteMachine.Assembly
open Text
variable {s t word : List Char} {labels : Labels} {number offset : Nat}

/-- What a statement cannot hold: the ends of labels and lines and what starts a comment. -/
def marks : List Char := [':', ';', '#', '\n', '\r']

structure OneStatement (t : List Char) : Prop where
  filled : t ≠ []
  trimmed : Trimmed t
  plain : ∀ c ∈ t, c ∉ marks

namespace OneStatement

theorem oneLine (single : OneStatement t) : OneLine t := by
  intro c mem
  have plain := single.plain c mem
  constructor <;> rintro rfl <;> exact plain (by decide)

theorem lines_eq (single : OneStatement t) : lines t = [t] :=
  lines_of_oneLine single.oneLine single.filled

theorem spells (single : OneStatement t) : Spells t ⟨none, t⟩ := by
  have cut : Uncommented (t ++ []) t := by
    refine .intro (fun c mem => ?_) nofun
    have plain := single.plain c mem
    constructor <;> rintro rfl <;> exact plain (by decide)
  rw [List.append_nil] at cut
  exact .plain cut (trim_eq_iff.1 single.trimmed.trim) fun mem => single.plain ':' mem (by decide)

theorem ofText_eq (single : OneStatement t) : Line.ofText t = ⟨none, t⟩ := by
  obtain ⟨names, body⟩ := spells_iff.1 single.spells
  generalize Line.ofText t = line at names body
  obtain ⟨label, rest⟩ := line
  cases names
  cases body
  rfl

theorem readLine_eq (single : OneStatement t) :
    readLine labels offset t = (statement t).map (labels, ·) := by
  rw [readLine, single.ofText_eq]
  cases statement t <;> rfl

theorem layout_eq (single : OneStatement t) : layout number offset labels [t] =
    ((statement t).mapError (Error.mk number)).map fun pieces =>
      ⟨pieces.map (number, ·), labels⟩ := by
  rw [layout, single.readLine_eq]
  cases statement t with
  | error cause => rfl
  | ok pieces => exact congrArg (fun all => Except.ok (Layout.mk all labels)) (List.append_nil _)

theorem join (left : OneStatement s) (right : OneStatement t) (between : List Char)
    (plain : between.all (· ∉ marks)) : OneStatement (s ++ between ++ t) where
  filled := List.append_ne_nil_of_right_ne_nil _ right.filled
  trimmed := left.trimmed.join right.trimmed left.filled right.filled between
  plain := by
    have harmless : ∀ c ∈ between, c ∉ marks := fun c mem => by
      simpa using List.all_eq_true.1 plain c mem
    simp only [List.mem_append, or_imp, forall_and]
    exact ⟨⟨left.plain, harmless⟩, right.plain⟩

theorem of_solid (filled : t ≠ []) (solid : ∀ c ∈ t, isBlank c = false)
    (plain : ∀ c ∈ t, c ≠ ':' ∧ c ≠ ';' ∧ c ≠ '#') : OneStatement t where
  filled := filled
  trimmed := .of_word solid
  plain := by
    intro c mem mark
    obtain ⟨colon, semicolon, hash⟩ := plain c mem
    have blank := solid c mem
    simp only [marks, List.mem_cons, List.not_mem_nil, or_false] at mark
    obtain same | same | same | rfl | rfl := mark
    · exact colon same
    · exact semicolon same
    · exact hash same
    · cases blank
    · cases blank

end OneStatement

structure Token (t : List Char) : Prop where
  filled : t ≠ []
  characters : ∀ c ∈ t, c.isAlphanum ∨ c = '+' ∨ c = '-'

namespace Token

theorem of_word (word : Word t) (filled : t ≠ []) : Token t :=
  ⟨filled, fun c mem => .inl (word c mem)⟩

theorem cons {c : Char} (head : c.isAlphanum ∨ c = '+' ∨ c = '-') (word : Word t) :
    Token (c :: t) :=
  ⟨List.cons_ne_nil _ _, List.forall_mem_cons.2 ⟨head, fun c mem => .inl (word c mem)⟩⟩

theorem not_mem (token : Token t) {c : Char} (other : c.isAlphanum = false)
    (sign : c ≠ '+' ∧ c ≠ '-') : c ∉ t := by
  intro mem
  obtain letter | same | same := token.characters c mem
  · rw [other] at letter
    cases letter
  · exact sign.1 same
  · exact sign.2 same

theorem solid (token : Token t) : ∀ c ∈ t, isBlank c = false := by
  intro c mem
  obtain letter | rfl | rfl := token.characters c mem
  · exact Word.solid (List.forall_mem_singleton.2 letter) c (List.mem_singleton_self c)
  · rfl
  · rfl

theorem oneStatement (token : Token t) : OneStatement t := by
  refine .of_solid token.filled token.solid fun c mem => ⟨?_, ?_, ?_⟩ <;> rintro rfl <;>
    exact token.not_mem rfl (by decide) mem

theorem whole (token : Token t) : ',' ∉ t := token.not_mem rfl (by decide)

end Token

theorem RegisterOperand.token {r : UInt8} (operand : RegisterOperand t r) : Token t := by
  obtain ⟨mark, unsigned, -⟩ := operand
  have letter : ∀ c, c = 'R' ∨ c = 'r' → c.isAlphanum := by rintro c (rfl | rfl) <;> rfl
  obtain ⟨number⟩ | ⟨number⟩ := unsigned
  · exact .cons (.inl (letter _ mark)) (number.word (by decide))
  · refine ⟨List.cons_ne_nil _ _, ?_⟩
    have digits := number.word (by decide)
    exact List.forall_mem_cons.2 ⟨.inl (letter _ mark),
      List.forall_mem_cons.2 ⟨.inr (.inl rfl), fun c mem => .inl (digits c mem)⟩⟩

theorem OneStatement.behind (single : OneStatement t) (word : Word s) (filled : s ≠ []) :
    OneStatement (s ++ ' ' :: t) := by
  simpa using (Token.of_word word filled).oneStatement.join single [' '] rfl

theorem phrase_of_word (word : Word s) (trimmed : Trimmed t) :
    Phrase (s ++ ' ' :: t) s (operands t) := by
  have apart : ∀ c ∈ (' ' :: t).head?, isBlank c := by
    rintro _ ⟨⟩
    rfl
  rw [phrase_iff, firstRun_append word.solid apart, afterRun_append word.solid apart,
    trim_lead trimmed]
  exact ⟨rfl, rfl⟩

end ByteMachine.Assembly
