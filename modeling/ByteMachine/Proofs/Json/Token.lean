import ByteMachine.Json.Token
import ByteMachine.Json.Writer
import ByteMachine.Proofs.Text.Numeral
import Mathlib.Data.List.TakeWhile

/-! Scanning text that was written. Words and numbers end where a character follows that
belongs to neither, and every value that is written is followed by such a character or by
nothing, so the text of a value comes apart into the tokens of the value. -/
namespace ByteMachine.Json

inductive Plain : Json → Prop
  | null : Plain .null
  | nat (n : Nat) : Plain (.nat n)
  | string (s : String) : Plain (.string s)
  | array {items : List Json} (plain : ∀ v ∈ items, Plain v) : Plain (.array items)
  | object {members : List (Option String × Json)} (named : ∀ m ∈ members, m.1.isSome)
    (plain : ∀ m ∈ members, Plain m.2) : Plain (.object members)

mutual

def toTokens : Json → List Token
  | .null => [.null]
  | .bool b => [.bool b]
  | .number literal => [.number literal]
  | .text content => [.text content]
  | .array items => .openArray :: itemTokens items ++ [.closeArray]
  | .object members => .openObject :: memberTokens members ++ [.closeObject]

def itemTokens : List Json → List Token
  | [] => []
  | [item] => toTokens item
  | item :: rest => toTokens item ++ .comma :: itemTokens rest

def memberTokens : List (Option String × Json) → List Token
  | [] => []
  | [(name, value)] => .text name :: .colon :: toTokens value
  | (name, value) :: rest => .text name :: .colon :: toTokens value ++ .comma :: memberTokens rest

end

section
variable (item next : Json) (items : List Json) (name : Option String)
  (other : Option String × Json) (members : List (Option String × Json))

theorem itemTokens_cons : itemTokens (item :: next :: items) =
    toTokens item ++ .comma :: itemTokens (next :: items) := by
  rw [itemTokens]
  exact nofun

theorem memberTokens_cons : memberTokens ((name, item) :: other :: members) =
    .text name :: .colon :: (toTokens item ++ .comma :: memberTokens (other :: members)) := by
  rw [memberTokens]
  · rfl
  · exact nofun

theorem compactItems_cons : compactItems (item :: next :: items) =
    compact item ++ ',' :: compactItems (next :: items) := by
  rw [compactItems]
  exact nofun

theorem compactMembers_cons : compactMembers ((name, item) :: other :: members) =
    quoted name ++ ':' :: (compact item ++ ',' :: compactMembers (other :: members)) := by
  rw [compactMembers, List.append_assoc, List.cons_append]
  exact nofun

end

/-- What may follow a value in written text. -/
def Closed (rest : List Char) : Prop := ∀ c ∈ rest.head?, c ∈ [',', ']', '\x7d']

theorem scan_cons {mode next : Mode} {c : Char} {done : List Token} (read : List Token)
    (rest : List Char) (feed : mode.feed c = some (done, next)) :
    scan read mode (c :: rest) = scan (done.reverse ++ read) next rest := by
  rw [scan, feed]

theorem scan_finish {mode : Mode} {token : Token} {rest : List Char} (read : List Token)
    (finish : mode.finish = some [token])
    (ends : ∀ c ∈ rest.head?,
      mode.feed c = (start c).map fun (more, next) => (token :: more, next)) :
    scan read mode rest = scan (token :: read) .between rest := by
  cases rest with
  | nil =>
    rw [scan, finish]
    rfl
  | cons c rest =>
    -- The next character ends the token and is read as if nothing had been before it.
    have ends := ends c (by simp)
    rw [scan, scan, ends, Mode.feed]
    cases start c <;> simp

theorem Closed.ends {rest : List Char} (closed : Closed rest) :
    ∀ c ∈ rest.head?, isLetter c = false ∧ isNumeral c = false := by
  intro c mem
  have one := closed c mem
  simp only [List.mem_cons, List.not_mem_nil, or_false] at one
  rcases one with rfl | rfl | rfl <;> exact ⟨rfl, rfl⟩

/-! ### Words and numbers -/

theorem scan_null (read : List Token) {rest : List Char} (closed : Closed rest) :
    scan read .between ("null".toList ++ rest) = scan (.null :: read) .between rest := by
  have word : scan read .between ("null".toList ++ rest) =
      scan read (.word "llun".toList) rest := rfl
  have finish : (Mode.word "llun".toList).finish = some [.null] := rfl
  rw [word]
  refine scan_finish read finish fun c mem => ?_
  simp only [Mode.feed, (closed.ends c mem).1, finish]
  cases start c <;> rfl

theorem feed_number {c : Char} (numeral : isNumeral c) (literal : List Char) :
    (Mode.number literal).feed c = some ([], .number (c :: literal)) := by
  simp [Mode.feed, numeral]

theorem scan_digits (read : List Token) {digits : List Char}
    (numeral : ∀ c ∈ digits, Text.isDigit 10 c) (literal rest : List Char) :
    scan read (.number literal) (digits ++ rest) =
      scan read (.number (digits.reverse ++ literal)) rest := by
  induction digits generalizing literal with
  | nil => rfl
  | cons c digits ih =>
    have first : isNumeral c := by simp [isNumeral, numeral c List.mem_cons_self]
    rw [List.cons_append, scan_cons read _ (feed_number first literal)]
    refine (ih (fun c mem => numeral c (List.mem_cons_of_mem _ mem)) _).trans ?_
    rw [List.reverse_cons, List.append_assoc]
    rfl

theorem head_decimal (n : Nat) : ∃ c rest, Text.decimal n = c :: rest ∧ (c = '0' → n = 0) := by
  induction n using Nat.strongRecOn with
  | ind n ih =>
    rw [Text.decimal]
    by_cases small : n < 10
    · rw [Nat.toDigits_of_lt_base small]
      have digit : ∀ d < 10, Nat.digitChar d = '0' → d = 0 := by decide
      exact ⟨_, [], rfl, digit n small⟩
    · obtain ⟨c, rest, digits, zero⟩ := ih (n / 10) (by omega)
      rw [Nat.toDigits_of_base_le (by decide) (by omega), ← Text.decimal, digits]
      exact ⟨c, _, rfl, fun first => absurd (zero first) (by omega)⟩

theorem isDigit_of_mem_decimal {n : Nat} {c : Char} (mem : c ∈ Text.decimal n) :
    Text.isDigit 10 c := Text.isDigit_of_mem_toDigits (by decide) (by decide) n c mem

theorem isWhole_decimal (n : Nat) : isWhole (Text.decimal n) := by
  obtain ⟨c, rest, digits, zero⟩ := head_decimal n
  have all : allDigits (c :: rest) := by
    simp only [allDigits, ← digits, Bool.and_eq_true, bne_iff_ne, List.all_eq_true]
    exact ⟨fun none => by simp [none] at digits, fun c mem => isDigit_of_mem_decimal mem⟩
  by_cases first : c = '0'
  · cases zero first
    rfl
  · rw [digits]
    unfold isWhole
    split <;> simp_all

theorem isNumber_decimal (n : Nat) : isNumber (Text.decimal n) := by
  have digit {p : Char → Prop} (all : ∀ d < 10, p (Nat.digitChar d)) :
      ∀ c ∈ Text.decimal n, p c := fun c mem => Text.forall_isDigit all (isDigit_of_mem_decimal mem)
  have mantissa := digit (p := fun c => (c != 'e' && c != 'E') = true) (by decide)
  have whole := digit (p := fun c => (c != '.') = true) (by decide)
  have unsigned : isUnsigned (Text.decimal n) := by
    simp only [isUnsigned, List.takeWhile_eq_self_iff.2 mantissa,
      List.dropWhile_eq_nil_iff.2 mantissa, List.takeWhile_eq_self_iff.2 whole,
      List.dropWhile_eq_nil_iff.2 whole, isWhole_decimal]
    rfl
  unfold isNumber
  split
  · next minus =>
    have sign := digit (p := fun c => c ≠ '-') (by decide) '-' (minus ▸ List.mem_cons_self)
    exact absurd rfl sign
  · exact unsigned

theorem scan_nat (read : List Token) (n : Nat) {rest : List Char} (closed : Closed rest) :
    scan read .between (Text.decimal n ++ rest) =
      scan (.number (Text.decimal n) :: read) .between rest := by
  obtain ⟨c, more, digits, -⟩ := head_decimal n
  have all : ∀ c ∈ Text.decimal n, Text.isDigit 10 c := fun c mem => isDigit_of_mem_decimal mem
  have begin : Mode.between.feed c = some ([], .number [c]) :=
    Text.forall_isDigit (p := fun c => start c = some ([], .number [c])) (by decide)
      (all c (digits ▸ List.mem_cons_self))
  have literal : scan read .between (Text.decimal n ++ rest) =
      scan read (.number (Text.decimal n).reverse) rest := by
    rw [digits] at all ⊢
    rw [List.cons_append, scan_cons read _ begin, List.reverse_cons]
    exact scan_digits read (fun c mem => all c (List.mem_cons_of_mem _ mem)) [c] rest
  rw [literal]
  have finish : (Mode.number (Text.decimal n).reverse).finish =
      some [.number (Text.decimal n)] := by
    simp only [Mode.finish, List.reverse_reverse, isNumber_decimal, if_true]
  refine scan_finish read finish fun c mem => ?_
  simp only [Mode.feed, (closed.ends c mem).2, finish]
  cases start c <;> rfl

/-! ### Strings -/

def Part.Spells (part : Part) (c : Char) : Prop :=
  part = .char c ∨ part = .unit c.toNat ∧ c.toNat < 0x20

theorem decodeParts_cons {part : Part} {c : Char} (spells : part.Spells c) (parts : List Part) :
    decodeParts (part :: parts) = (decodeParts parts).map (c :: ·) := by
  rcases spells with rfl | ⟨rfl, control⟩
  · rw [decodeParts]
  · have leading : isLeading c.toNat = false := by
      simp only [isLeading, Bool.and_eq_false_imp, decide_eq_true_eq, decide_eq_false_iff_not]
      omega
    have trailing : isTrailing c.toNat = false := by
      simp only [isTrailing, Bool.and_eq_false_imp, decide_eq_true_eq, decide_eq_false_iff_not]
      omega
    rcases parts with _ | ⟨_ | _, parts⟩ <;>
      simp [decodeParts, leading, trailing, Char.ofNat_toNat, Function.comp_def]

theorem scan_code (read : List Token) (parts : List Part) (rest : List Char) {n : Nat}
    (control : n < 0x20) :
    scan read (.text parts) ("\\u00".toList ++ Text.hexLower n ++ rest) =
      scan read (.text (.unit n :: parts)) rest := by
  have digits : ∀ n < 0x20, Text.hexLower n = [Nat.digitChar (n / 16), Nat.digitChar (n % 16)] := by
    decide
  have digit : ∀ d < 16, Text.isDigit 16 (Nat.digitChar d) := by decide
  have value : ∀ n < 0x20, Text.ofDigits 16
      ['0', '0', Nat.digitChar (n / 16), Nat.digitChar (n % 16)] = n := by decide
  rw [digits n control]
  have third : (Mode.code parts ['0', '0']).feed (Nat.digitChar (n / 16)) =
      some ([], .code parts [Nat.digitChar (n / 16), '0', '0']) := by
    simp only [Mode.feed, digit (n / 16) (by omega), if_true]
    rfl
  have fourth : (Mode.code parts [Nat.digitChar (n / 16), '0', '0']).feed (Nat.digitChar (n % 16)) =
      some ([], .text (.unit n :: parts)) := by
    simp only [Mode.feed, digit (n % 16) (by omega), if_true]
    exact congrArg (fun v => some ([], Mode.text (.unit v :: parts))) (value n control)
  exact (scan_cons read _ third).trans (scan_cons read _ fourth)

theorem scan_escaped (c : Char) : ∃ part : Part, part.Spells c ∧
    ∀ read parts rest, scan read (.text parts) (escaped c ++ rest) =
      scan read (.text (part :: parts)) rest := by
  unfold escaped
  split
  -- Of the characters without a letter of their own, only the control characters are escaped.
  case h_8 =>
    next quote slash _ _ _ _ _ =>
    split
    · next control =>
      exact ⟨.unit c.toNat, .inr ⟨rfl, control⟩,
        fun read parts rest => scan_code read parts rest control⟩
    · next plain =>
      refine ⟨.char c, .inl rfl, fun read parts rest => ?_⟩
      have feed : (Mode.text parts).feed c = some ([], .text (.char c :: parts)) := by
        simp only [Mode.feed, if_neg quote, if_neg slash, if_neg plain]
      exact scan_cons read rest feed
  all_goals exact ⟨.char _, .inl rfl, fun read parts rest => rfl⟩

theorem scan_characters (s : List Char) : ∃ parts : List Part, decodeParts parts = some s ∧
    ∀ read before rest, scan read (.text before) (s.flatMap escaped ++ rest) =
      scan read (.text (parts.reverse ++ before)) rest := by
  induction s with
  | nil => exact ⟨[], rfl, fun _ _ _ => rfl⟩
  | cons c s ih =>
    obtain ⟨part, spells, first⟩ := scan_escaped c
    obtain ⟨parts, decoded, others⟩ := ih
    refine ⟨part :: parts, ?_, fun read before rest => ?_⟩
    · rw [decodeParts_cons spells, decoded]
      rfl
    · rw [List.flatMap_cons, List.append_assoc, first, others, List.reverse_cons, List.append_assoc]
      rfl

theorem scan_quoted (read : List Token) (s : String) (rest : List Char) :
    scan read .between (quoted (some s) ++ rest) = scan (.text (some s) :: read) .between rest := by
  obtain ⟨parts, decoded, scanned⟩ := scan_characters s.toList
  have text : quoted (some s) ++ rest = '"' :: (s.toList.flatMap escaped ++ '"' :: rest) :=
    congrArg ('"' :: ·) (List.append_assoc _ _ _)
  have closing : (Mode.text parts.reverse).feed '"' = some ([.text (some s)], .between) := by
    simp [Mode.feed, decoded]
  have opening : Mode.between.feed '"' = some ([], .text []) := rfl
  rw [text, scan_cons read _ opening]
  refine (scanned read [] _).trans ?_
  rw [List.append_nil]
  exact scan_cons read rest closing

/-! ### Values -/

theorem scan_symbol {c : Char} (token : Token)
    (symbol : Mode.between.feed c = some ([token], .between)) (read : List Token)
    (rest : List Char) :
    scan read .between (c :: rest) = scan (token :: read) .between rest :=
  scan_cons read rest symbol

theorem closed_cons {c : Char} (closing : c ∈ [',', ']', '\x7d']) (rest : List Char) :
    Closed (c :: rest) := by
  simpa [Closed] using closing

def Scans (v : Json) : Prop := ∀ read rest, Closed rest →
  scan read .between (compact v ++ rest) = scan ((toTokens v).reverse ++ read) .between rest

theorem scan_items {items : List Json} (each : ∀ v ∈ items, Scans v) (read : List Token)
    {rest : List Char} (closed : Closed rest) :
    scan read .between (compactItems items ++ rest) =
      scan ((itemTokens items).reverse ++ read) .between rest := by
  induction items generalizing read with
  | nil => rfl
  | cons item items ih =>
    have first := each item List.mem_cons_self
    cases items with
    | nil => exact first read rest closed
    | cons next items =>
      have others := fun v mem => each v (List.mem_cons_of_mem _ mem)
      rw [compactItems_cons, itemTokens_cons, List.append_assoc, List.cons_append,
        first read _ (closed_cons (by decide) _), scan_symbol .comma rfl, ih others]
      simp

theorem scan_members {members : List (Option String × Json)} (named : ∀ m ∈ members, m.1.isSome)
    (each : ∀ m ∈ members, Scans m.2) (read : List Token) {rest : List Char}
    (closed : Closed rest) :
    scan read .between (compactMembers members ++ rest) =
      scan ((memberTokens members).reverse ++ read) .between rest := by
  induction members generalizing read with
  | nil => rfl
  | cons member members ih =>
    obtain ⟨name, value⟩ := member
    obtain ⟨name, rfl⟩ := Option.isSome_iff_exists.1 (named (name, value) List.mem_cons_self)
    have first : Scans value := each (some name, value) List.mem_cons_self
    have head (more : List Char) (closed : Closed more) :
        scan read .between (quoted (some name) ++ ':' :: (compact value ++ more)) =
          scan ((toTokens value).reverse ++ .colon :: .text (some name) :: read) .between more := by
      rw [scan_quoted, scan_symbol .colon rfl, first _ _ closed]
    cases members with
    | nil =>
      rw [compactMembers, memberTokens, List.append_assoc, List.cons_append, head rest closed]
      simp
    | cons next members =>
      have others := fun v mem => each v (List.mem_cons_of_mem _ mem)
      have names := fun v mem => named v (List.mem_cons_of_mem _ mem)
      rw [compactMembers_cons, memberTokens_cons, List.append_assoc, List.cons_append,
        List.append_assoc, List.cons_append, head _ (closed_cons (by decide) _),
        scan_symbol .comma rfl, ih names others]
      simp

theorem Plain.scans {v : Json} (plain : Plain v) : Scans v := by
  induction plain with
  | null => exact fun read _ closed => scan_null read closed
  | nat n => exact fun read _ closed => scan_nat read n closed
  | string s => exact fun read rest _ => scan_quoted read s rest
  | array _ each =>
    intro read rest closed
    have items := scan_items each (.openArray :: read) (closed_cons (c := ']') (by decide) rest)
    rw [compact, toTokens, List.append_assoc, List.cons_append,
      scan_symbol .openArray rfl]
    refine items.trans ((scan_symbol .closeArray rfl _ _).trans ?_)
    simp
  | object named _ each =>
    intro read rest closed
    have members :=
      scan_members named each (.openObject :: read) (closed_cons (c := '\x7d') (by decide) rest)
    rw [compact, toTokens, List.append_assoc, List.cons_append,
      scan_symbol .openObject rfl]
    refine members.trans ((scan_symbol .closeObject rfl _ _).trans ?_)
    simp

theorem tokens_compact {v : Json} (plain : Plain v) : tokens (compact v) = some (toTokens v) := by
  have all := plain.scans [] [] fun _ mem => nomatch mem
  rw [List.append_nil, List.append_nil] at all
  rw [tokens, all]
  simp [scan, Mode.finish]

end ByteMachine.Json
