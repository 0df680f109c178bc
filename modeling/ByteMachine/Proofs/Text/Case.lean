import ByteMachine.Proofs.Text.Numeral
import ByteMachine.Text.Uppercase

/-! Letters of one case in place of letters of the other. Making capital letters small
keeps symbols, digits and the numbers written with them; the capital form of a text
holds no small ASCII letter, so that case tells nothing apart in it. -/
namespace ByteMachine.Text
variable {base : Nat} {t : List Char}

theorem forall_ascii {p : Char → Prop} (all : ∀ n < 128, p (Char.ofNat n)) {c : Char}
    (ascii : c.toNat < 128) : p c := by
  have at_c := all c.toNat ascii
  rwa [Char.ofNat_toNat] at at_c

/-- What holds of the capital letters with their small forms, and of all other characters with
themselves, holds of every character and what it is made small to. -/
theorem toLower_cases {p : Char → Char → Prop}
    (capital : ∀ n < 128, (Char.ofNat n).isUpper → p (Char.ofNat n) (Char.ofNat n).toLower)
    (other : ∀ c, c.isUpper = false → p c c) (c : Char) : p c c.toLower := by
  by_cases upper : c.isUpper
  · have range : 65 ≤ c.toNat ∧ c.toNat ≤ 90 := of_decide_eq_true upper
    exact forall_ascii (p := fun c => c.isUpper → p c c.toLower) capital (by omega) upper
  · have same : c.toLower = c := dif_neg fun range => upper (decide_eq_true range)
    rw [same]
    exact other c (Bool.eq_false_iff.2 upper)

theorem digitValue_toLower (c : Char) : digitValue c.toLower = digitValue c :=
  toLower_cases (p := fun c lower => digitValue lower = digitValue c) (by decide)
    (fun _ _ => rfl) c

theorem digits_asciiLowercase {n : Nat} : Digits base (asciiLowercase t) n ↔ Digits base t n := by
  have same : ∀ c, isDigit base c.toLower = isDigit base c := fun c => by
    rw [isDigit, isDigit, digitValue_toLower]
  have value : ofDigits base (asciiLowercase t) = ofDigits base t := by
    simp only [ofDigits, asciiLowercase, List.foldl_map, digitValue_toLower]
  constructor
  · rintro ⟨nonempty, digits, number⟩
    refine ⟨fun none => nonempty (congrArg asciiLowercase none), fun c mem => ?_, value ▸ number⟩
    exact same c ▸ digits _ (List.mem_map_of_mem mem)
  · rintro ⟨nonempty, digits, number⟩
    refine ⟨fun none => nonempty (List.map_eq_nil_iff.1 none), fun c mem => ?_, value.trans number⟩
    obtain ⟨d, original, rfl⟩ := List.mem_map.1 mem
    exact (same d).trans (digits d original)

theorem toLower_eq_symbol {symbol : Char} (plain : symbol.isAlpha = false) (c : Char) :
    c.toLower = symbol ↔ c = symbol := by
  have letters : ∀ n < 128, (Char.ofNat n).isUpper →
      (Char.ofNat n).isAlpha ∧ (Char.ofNat n).toLower.isAlpha := by decide
  refine toLower_cases (p := fun c lower => lower = symbol ↔ c = symbol) (fun n lt upper => ?_)
    (fun _ _ => Iff.rfl) c
  have letter := letters n lt upper
  constructor <;> rintro rfl
  · simp [letter.2] at plain
  · simp [letter.1] at plain

theorem asciiLowercase_cons_symbol {symbol : Char} (plain : symbol.isAlpha = false)
    {rest : List Char} :
    asciiLowercase t = symbol :: rest ↔ ∃ more, t = symbol :: more ∧ asciiLowercase more = rest := by
  rw [asciiLowercase, List.map_eq_cons_iff]
  constructor
  · rintro ⟨c, more, rfl, lower, rfl⟩
    exact ⟨more, by rw [(toLower_eq_symbol plain c).1 lower], rfl⟩
  · rintro ⟨more, rfl, rfl⟩
    exact ⟨symbol, more, rfl, (toLower_eq_symbol plain symbol).2 rfl, rfl⟩

theorem unsigned_asciiLowercase {n : Nat} :
    Unsigned base (asciiLowercase t) n ↔ Unsigned base t n := by
  constructor
  · intro number
    generalize lower : asciiLowercase t = small at number
    cases number with
    | bare number => exact .bare (digits_asciiLowercase.1 (lower ▸ number))
    | plus number =>
      obtain ⟨rest, rfl, rfl⟩ := (asciiLowercase_cons_symbol rfl).1 lower
      exact .plus (digits_asciiLowercase.1 number)
  · rintro (number | number)
    · exact .bare (digits_asciiLowercase.2 number)
    · exact .plus (digits_asciiLowercase.2 number)

theorem signed_asciiLowercase {z : Int} : Signed base (asciiLowercase t) z ↔ Signed base t z := by
  constructor
  · intro number
    generalize lower : asciiLowercase t = small at number
    cases number with
    | unsigned number => exact .unsigned (unsigned_asciiLowercase.1 (lower ▸ number))
    | minus number =>
      obtain ⟨rest, rfl, rfl⟩ := (asciiLowercase_cons_symbol rfl).1 lower
      exact .minus (digits_asciiLowercase.1 number)
  · rintro (number | number)
    · exact .unsigned (unsigned_asciiLowercase.2 number)
    · exact .minus (digits_asciiLowercase.2 number)

theorem isUpper_iff {c : Char} : c.isUpper ↔ 65 ≤ c.toNat ∧ c.toNat ≤ 90 := decide_eq_true_iff

theorem isLower_iff {c : Char} : c.isLower ↔ 97 ≤ c.toNat ∧ c.toNat ≤ 122 :=
  Bool.and_eq_true_iff.trans (and_congr decide_eq_true_iff decide_eq_true_iff)

theorem caseExpansions_apart : ∀ entry ∈ caseExpansions, ∀ code ∈ entry.2,
    (Char.ofNat code).isLower = false := by decide +kernel

theorem caseRuns_apart : ∀ run ∈ caseRuns,
    (run.last : Int) + run.shift < 97 ∨ 122 < (run.first : Int) + run.shift := by decide +kernel

theorem toNat_ofNat (n : Nat) : (Char.ofNat n).toNat = n ∨ (Char.ofNat n).toNat = 0 := by
  by_cases valid : n.isValidChar
  · rw [Char.ofNat, dif_pos valid]
    exact .inl rfl
  · rw [Char.ofNat, dif_neg valid]
    exact .inr rfl

theorem isLower_of_mem_upperChar {c d : Char} (mem : d ∈ upperChar c) : d.isLower = false := by
  rw [upperChar] at mem
  split at mem
  · next ascii =>
    rw [List.mem_singleton.1 mem]
    exact forall_ascii (p := fun c => c.toUpper.isLower = false) (by decide) ascii
  · split at mem
    · next codes found =>
      obtain ⟨code, listed, rfl⟩ := List.mem_map.1 mem
      obtain ⟨before, after, table, -⟩ := List.lookup_eq_some_iff.1 found
      have entry : (c.toNat, codes) ∈ caseExpansions :=
        table ▸ List.mem_append_right _ List.mem_cons_self
      exact caseExpansions_apart _ entry code listed
    · split at mem
      · next run found =>
        have apart := caseRuns_apart run (List.mem_of_find?_eq_some found)
        have holds := List.find?_some found
        simp only [CaseRun.holds, Bool.and_eq_true, decide_eq_true_eq] at holds
        rw [List.mem_singleton.1 mem, Bool.eq_false_iff, Ne, isLower_iff]
        rcases toNat_ofNat (c.toNat + run.shift).toNat with same | zero <;> omega
      · rw [List.mem_singleton.1 mem, Bool.eq_false_iff, Ne, isLower_iff]
        omega

theorem isLower_of_mem_uppercase {c : Char} (mem : c ∈ uppercase t) : c.isLower = false := by
  obtain ⟨d, -, mem⟩ := List.mem_flatMap.1 mem
  exact isLower_of_mem_upperChar mem

/-! ### Blanks -/

def blankRanges : List (Nat × Nat) :=
  [(0x09, 0x0D), (0x20, 0x20), (0x85, 0x85), (0xA0, 0xA0), (0x1680, 0x1680), (0x2000, 0x200A),
    (0x2028, 0x2029), (0x202F, 0x202F), (0x205F, 0x205F), (0x3000, 0x3000)]

theorem isBlank_iff {c : Char} :
    isBlank c ↔ ∃ range ∈ blankRanges, range.1 ≤ c.toNat ∧ c.toNat ≤ range.2 := by
  simp only [isBlank, blankRanges, Bool.or_eq_true, Bool.and_eq_true, decide_eq_true_eq,
    beq_iff_eq, List.mem_cons, List.not_mem_nil, or_and_right, exists_or, exists_eq_left, or_false]
  omega

theorem blankRanges_pos : ∀ range ∈ blankRanges, 0 < range.1 := by decide

theorem caseExpansions_solid : ∀ entry ∈ caseExpansions, entry.2 ≠ [] ∧
    isBlank (Char.ofNat entry.1) = false ∧
    ∀ code ∈ entry.2, isBlank (Char.ofNat code) = false := by decide +kernel

theorem caseRuns_solid : ∀ run ∈ caseRuns, ∀ range ∈ blankRanges,
    (range.2 < run.first ∨ run.last < range.1) ∧
    ((range.2 : Int) < run.first + run.shift ∨ (run.last : Int) + run.shift < range.1) := by
  decide +kernel

theorem upperChar_ne_nil (c : Char) : upperChar c ≠ [] := by
  rw [upperChar]
  split
  · exact List.cons_ne_nil _ _
  · split
    · next codes found =>
      obtain ⟨before, after, table, -⟩ := List.lookup_eq_some_iff.1 found
      have entry : (c.toNat, codes) ∈ caseExpansions :=
        table ▸ List.mem_append_right _ List.mem_cons_self
      exact fun none => (caseExpansions_solid _ entry).1 (List.map_eq_nil_iff.1 none)
    · split <;> exact List.cons_ne_nil _ _

theorem isBlank_of_mem_upperChar {c d : Char} (mem : d ∈ upperChar c) : isBlank d = isBlank c := by
  rw [upperChar] at mem
  split at mem
  · next ascii =>
    rw [List.mem_singleton.1 mem]
    exact forall_ascii (p := fun c => isBlank c.toUpper = isBlank c) (by decide) ascii
  · split at mem
    · next codes found =>
      obtain ⟨code, listed, rfl⟩ := List.mem_map.1 mem
      obtain ⟨before, after, table, -⟩ := List.lookup_eq_some_iff.1 found
      have entry : (c.toNat, codes) ∈ caseExpansions :=
        table ▸ List.mem_append_right _ List.mem_cons_self
      obtain ⟨-, small, capital⟩ := caseExpansions_solid _ entry
      rw [Char.ofNat_toNat] at small
      rw [small, capital code listed]
    · split at mem
      · next run found =>
        have apart := caseRuns_solid run (List.mem_of_find?_eq_some found)
        have holds := List.find?_some found
        simp only [CaseRun.holds, Bool.and_eq_true, decide_eq_true_eq] at holds
        have small : isBlank c = false := by
          rw [Bool.eq_false_iff, Ne, isBlank_iff]
          rintro ⟨range, blank, lower, upper⟩
          have outside := (apart range blank).1
          omega
        have capital : isBlank (Char.ofNat (c.toNat + run.shift).toNat) = false := by
          rw [Bool.eq_false_iff, Ne, isBlank_iff]
          rintro ⟨range, blank, lower, upper⟩
          have outside := (apart range blank).2
          have positive := blankRanges_pos range blank
          rcases toNat_ofNat (c.toNat + run.shift).toNat with same | zero <;> omega
        rw [List.mem_singleton.1 mem, small, capital]
      · rw [List.mem_singleton.1 mem]

theorem uppercase_eq_nil_iff : uppercase t = [] ↔ t = [] := by
  rw [uppercase, List.flatMap_eq_nil_iff, List.eq_nil_iff_forall_not_mem]
  exact forall_congr' fun c => imp_congr_right fun _ => iff_of_false (upperChar_ne_nil c) id

theorem exists_blank_uppercase : (∃ c ∈ uppercase t, isBlank c) ↔ ∃ c ∈ t, isBlank c := by
  constructor
  · rintro ⟨d, mem, blank⟩
    obtain ⟨c, original, mem⟩ := List.mem_flatMap.1 mem
    exact ⟨c, original, isBlank_of_mem_upperChar mem ▸ blank⟩
  · rintro ⟨c, original, blank⟩
    obtain ⟨d, more, capital⟩ := List.exists_cons_of_ne_nil (upperChar_ne_nil c)
    have mem : d ∈ upperChar c := capital ▸ List.mem_cons_self
    exact ⟨d, List.mem_flatMap.2 ⟨c, original, mem⟩, isBlank_of_mem_upperChar mem ▸ blank⟩

theorem toUpper_toLower : ∀ c : Char, c.isLower = false → c.toLower.toUpper = c :=
  toLower_cases (p := fun c lower => c.isLower = false → lower.toUpper = c) (by decide)
    fun c _ plain => dif_neg fun range => by simp [isLower_iff.2 range] at plain

theorem toLower_eq_small {small : Char} (lower : small.isLower) (c : Char) :
    c.toLower = small ↔ c = small ∨ c = small.toUpper := by
  have range := isLower_iff.1 lower
  have letter : small.toLower = small ∧ small.toUpper.toLower = small :=
    forall_ascii (p := fun c => c.isLower → c.toLower = c ∧ c.toUpper.toLower = c) (by decide)
      (by omega) lower
  constructor
  · rintro rfl
    exact toLower_cases (p := fun c lower => c = lower ∨ c = lower.toUpper) (by decide)
      (fun _ _ => .inl rfl) c
  · rintro (rfl | rfl)
    · exact letter.1
    · exact letter.2

theorem sameUpToCase_iff {s : List Char} (left : ∀ c ∈ s, c.isLower = false)
    (right : ∀ c ∈ t, c.isLower = false) : sameUpToCase s t ↔ s = t := by
  have undo : ∀ {u : List Char}, (∀ c ∈ u, c.isLower = false) →
      (asciiLowercase u).map Char.toUpper = u := fun {u} plain => by
    have each : ∀ c ∈ u, (Char.toUpper ∘ Char.toLower) c = id c := fun c mem =>
      toUpper_toLower c (plain c mem)
    rw [asciiLowercase, List.map_map, List.map_congr_left each, List.map_id]
  rw [sameUpToCase, beq_iff_eq]
  constructor
  · intro same
    rw [← undo left, same, undo right]
  · exact congrArg asciiLowercase

end ByteMachine.Text
