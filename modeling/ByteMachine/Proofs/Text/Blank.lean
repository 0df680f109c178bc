import ByteMachine.Text.Blank

/-! Trimming forgets the blanks around a text and nothing else, and the first run
of a text is the word it starts with. Words of letters and digits hold no blank. -/
namespace ByteMachine.Text
variable {t : List Char}

theorem trimStart_eq_self (first : ∀ c ∈ t.head?, isBlank c = false) : trimStart t = t := by
  cases t with
  | nil => rfl
  | cons c rest => exact List.dropWhile_cons_of_neg (by simp [first c rfl])

theorem trimEnd_eq (t : List Char) : trimEnd t = (trimStart t.reverse).reverse := rfl

theorem trimEnd_eq_self (last : ∀ c ∈ t.getLast?, isBlank c = false) : trimEnd t = t := by
  rw [← List.head?_reverse] at last
  rw [trimEnd_eq, trimStart_eq_self last, List.reverse_reverse]

theorem trimStart_append {blanks : List Char} (blank : ∀ c ∈ blanks, isBlank c) (t : List Char) :
    trimStart (blanks ++ t) = trimStart t := List.dropWhile_append_of_pos blank

theorem trimEnd_append {blanks : List Char} (blank : ∀ c ∈ blanks, isBlank c) (t : List Char) :
    trimEnd (t ++ blanks) = trimEnd t := by
  have mirrored : ∀ c ∈ blanks.reverse, isBlank c := fun c mem => blank c (List.mem_reverse.1 mem)
  rw [trimEnd_eq, List.reverse_append, trimStart_append mirrored, ← trimEnd_eq]

structure Trimmed (t : List Char) : Prop where
  first : ∀ c ∈ t.head?, isBlank c = false
  last : ∀ c ∈ t.getLast?, isBlank c = false

namespace Trimmed

theorem of_word (word : ∀ c ∈ t, isBlank c = false) : Trimmed t :=
  ⟨fun c mem => word c (List.mem_of_mem_head? mem),
    fun c mem => word c (List.mem_of_mem_getLast? mem)⟩

theorem join {s : List Char} (left : Trimmed s) (right : Trimmed t) (some : s ≠ [])
    (more : t ≠ []) (between : List Char) : Trimmed (s ++ between ++ t) where
  first := by
    obtain ⟨c, rest, rfl⟩ := List.exists_cons_of_ne_nil some
    exact left.first
  last := by
    have ending : (s ++ between ++ t).getLast? = t.getLast? := by
      rw [List.getLast?_append, List.getLast?_eq_some_getLast more, Option.some_or]
    rw [ending]
    exact right.last

theorem trim (h : Trimmed t) : Text.trim t = t := by
  rw [Text.trim, trimStart_eq_self h.first, trimEnd_eq_self h.last]

theorem trim_surround {before after : List Char} (h : Trimmed t)
    (blankBefore : ∀ c ∈ before, isBlank c) (blankAfter : ∀ c ∈ after, isBlank c) :
    Text.trim (before ++ t ++ after) = t := by
  rw [Text.trim, List.append_assoc, trimStart_append blankBefore]
  cases t with
  | nil =>
    have gone : trimStart after = [] := by
      simpa [trimStart] using trimStart_append blankAfter []
    rw [List.nil_append, gone]
    rfl
  | cons c rest =>
    have start : trimStart (c :: rest ++ after) = c :: rest ++ after :=
      trimStart_eq_self h.first
    rw [start, trimEnd_append blankAfter, trimEnd_eq_self h.last]

end Trimmed

/-- The second text is what is left of the first between the blanks at its ends. -/
inductive Padded : List Char → List Char → Prop
  | intro {before inner after : List Char} (trimmed : Trimmed inner)
      (blankBefore : ∀ c ∈ before, isBlank c) (blankAfter : ∀ c ∈ after, isBlank c) :
      Padded (before ++ inner ++ after) inner

theorem Padded.subset {inner : List Char} (padded : Padded t inner) : inner ⊆ t := by
  obtain ⟨-, -, -⟩ := padded
  exact fun c mem => List.mem_append_left _ (List.mem_append_right _ mem)

theorem of_mem_head?_dropWhile {p : Char → Bool} {c : Char} (mem : c ∈ (t.dropWhile p).head?) :
    p c = false := by
  have first := List.head?_dropWhile_not p t
  rw [Option.mem_def.1 mem] at first
  simpa using first

theorem padded_trim (t : List Char) : Padded t (trim t) := by
  have start : t.takeWhile isBlank ++ trimStart t = t := List.takeWhile_append_dropWhile
  have ending : trimEnd (trimStart t) ++ ((trimStart t).reverse.takeWhile isBlank).reverse =
      trimStart t := by
    rw [trimEnd, ← List.reverse_append, List.takeWhile_append_dropWhile, List.reverse_reverse]
  have trimmed : Trimmed (trim t) := by
    constructor
    · intro c mem
      have kept : (trimEnd (trimStart t)).head? = some c := mem
      have first : c ∈ (trimStart t).head? := by
        rw [← ending, List.head?_append, kept]
        rfl
      exact of_mem_head?_dropWhile first
    · intro c mem
      rw [trim, trimEnd, List.getLast?_reverse] at mem
      exact of_mem_head?_dropWhile mem
  have whole : t.takeWhile isBlank ++ trim t ++ ((trimStart t).reverse.takeWhile isBlank).reverse =
      t := by
    rw [List.append_assoc, trim, ending, start]
  have blankBefore : ∀ c ∈ t.takeWhile isBlank, isBlank c := List.all_eq_true.1 List.all_takeWhile
  have blankAfter : ∀ c ∈ ((trimStart t).reverse.takeWhile isBlank).reverse, isBlank c :=
    fun c mem => List.all_eq_true.1 List.all_takeWhile c (List.mem_reverse.1 mem)
  have padded := Padded.intro trimmed blankBefore blankAfter
  rwa [whole] at padded

theorem trim_eq_iff {inner : List Char} : trim t = inner ↔ Padded t inner := by
  constructor
  · rintro rfl
    exact padded_trim t
  · rintro ⟨trimmed, blankBefore, blankAfter⟩
    exact trimmed.trim_surround blankBefore blankAfter

theorem trim_append {blanks : List Char} (blank : ∀ c ∈ blanks, isBlank c) (t : List Char) :
    trim (t ++ blanks) = trim t := by
  generalize kept : trim t = inner
  obtain ⟨trimmed, blankBefore, blankAfter⟩ := trim_eq_iff.1 kept
  rw [trim_eq_iff, List.append_assoc]
  refine .intro trimmed blankBefore fun c mem => ?_
  exact (List.mem_append.1 mem).elim (blankAfter c) (blank c)

variable {word : List Char}

theorem firstRun_append {rest : List Char} (solid : ∀ c ∈ word, isBlank c = false)
    (stop : ∀ c ∈ rest.head?, isBlank c) : firstRun (word ++ rest) = word := by
  have taken : ∀ c ∈ word, (!isBlank c) = true := fun c mem => by simp [solid c mem]
  rw [firstRun, List.takeWhile_append_of_pos taken]
  cases rest with
  | nil => simp
  | cons c rest => rw [List.takeWhile_cons_of_neg (by simp [stop c rfl]), List.append_nil]

theorem afterRun_append {rest : List Char} (solid : ∀ c ∈ word, isBlank c = false)
    (stop : ∀ c ∈ rest.head?, isBlank c) : afterRun (word ++ rest) = rest := by
  have split := firstRun_append_afterRun (word ++ rest)
  rw [firstRun_append solid stop] at split
  exact List.append_cancel_left split

inductive FirstWord : List Char → List Char → Prop
  | intro {before word after : List Char} (lead : ∀ c ∈ before, isBlank c) (nonempty : word ≠ [])
      (solid : ∀ c ∈ word, isBlank c = false) (apart : ∀ c ∈ after.head?, isBlank c) :
      FirstWord (before ++ word ++ after) word

theorem firstWord_of_blank (blank : ∀ c ∈ t, isBlank c) : firstWord t = [] := by
  have gone := trimStart_append blank []
  rw [List.append_nil] at gone
  rw [firstWord, gone]
  rfl

theorem FirstWord.firstWord_eq (first : FirstWord t word) :
    firstWord t = word := by
  obtain ⟨lead, nonempty, solid, apart⟩ := first
  rename_i before after
  have start : trimStart (word ++ after) = word ++ after := by
    obtain ⟨c, rest, rfl⟩ := List.exists_cons_of_ne_nil nonempty
    refine trimStart_eq_self fun d mem => solid d ?_
    rw [← Option.some.inj mem]
    exact List.mem_cons_self
  rw [firstWord, List.append_assoc, trimStart_append lead, start, firstRun_append solid apart]

theorem firstWord_cases (t : List Char) :
    (∀ c ∈ t, isBlank c) ∧ firstWord t = [] ∨ FirstWord t (firstWord t) := by
  have lead : ∀ c ∈ t.takeWhile isBlank, isBlank c := List.all_eq_true.1 List.all_takeWhile
  have split : t.takeWhile isBlank ++ trimStart t = t := List.takeWhile_append_dropWhile
  cases rest : trimStart t with
  | nil =>
    rw [rest, List.append_nil] at split
    have blank : ∀ c ∈ t, isBlank c := split ▸ lead
    exact .inl ⟨blank, firstWord_of_blank blank⟩
  | cons c more =>
    have head : isBlank c = false := of_mem_head?_dropWhile (p := isBlank) (t := t) (by
      rw [← trimStart, rest]
      rfl)
    have nonempty : firstWord t ≠ [] := by
      rw [firstWord, rest, firstRun, List.takeWhile_cons_of_pos (by simp [head])]
      exact List.cons_ne_nil _ _
    have apart : ∀ d ∈ (afterRun (trimStart t)).head?, isBlank d := fun d mem => by
      simpa using of_mem_head?_dropWhile mem
    have whole := FirstWord.intro lead nonempty (fun d => isBlank_of_mem_firstRun) apart
    rw [List.append_assoc, firstWord, firstRun_append_afterRun, split] at whole
    exact .inr whole

theorem firstWord_append {blanks : List Char} (blank : ∀ c ∈ blanks, isBlank c) (t : List Char) :
    firstWord (t ++ blanks) = firstWord t := by
  obtain ⟨all, none⟩ | first := firstWord_cases t
  · rw [none]
    exact firstWord_of_blank fun c mem => (List.mem_append.1 mem).elim (all c) (blank c)
  · generalize firstWord t = word at first
    obtain ⟨lead, nonempty, solid, apart⟩ := first
    rename_i before after
    refine FirstWord.firstWord_eq ?_
    rw [List.append_assoc]
    refine .intro lead nonempty solid fun c mem => ?_
    cases after with
    | nil => exact blank c (List.mem_of_mem_head? mem)
    | cons d after => exact apart c mem

def Word (t : List Char) : Prop := ∀ c ∈ t, c.isAlphanum

namespace Word

theorem solid (word : Word t) : ∀ c ∈ t, isBlank c = false := by
  intro c mem
  have range : (65 ≤ c.toNat ∧ c.toNat ≤ 90) ∨ (97 ≤ c.toNat ∧ c.toNat ≤ 122) ∨
      (48 ≤ c.toNat ∧ c.toNat ≤ 57) := by
    rcases Bool.or_eq_true_iff.1 (word c mem) with letter | digit
    · rcases Bool.or_eq_true_iff.1 letter with upper | lower
      · exact .inl (of_decide_eq_true upper)
      · have range := Bool.and_eq_true_iff.1 lower
        exact .inr (.inl ⟨of_decide_eq_true range.1, of_decide_eq_true range.2⟩)
    · have range := Bool.and_eq_true_iff.1 digit
      exact .inr (.inr ⟨of_decide_eq_true range.1, of_decide_eq_true range.2⟩)
  simp only [isBlank, Bool.or_eq_false_iff, Bool.and_eq_false_iff, decide_eq_false_iff_not,
    beq_eq_false_iff_ne]
  omega

theorem not_mem (word : Word t) {c : Char} (other : c.isAlphanum = false) : c ∉ t :=
  fun mem => by simp [word c mem] at other

theorem trimmed (word : Word t) : Trimmed t := .of_word word.solid

theorem trim_eq (word : Word t) : trim t = t := word.trimmed.trim

theorem cons {c : Char} (head : c.isAlphanum) (word : Word t) : Word (c :: t) := by
  intro d mem
  rcases List.mem_cons.1 mem with rfl | mem
  · exact head
  · exact word d mem

end Word

end ByteMachine.Text
