import ByteMachine.Proofs.Text.Case
import Mathlib.Data.List.Forall2

/-! Which characters have an ASCII letter for their capital form: the letter itself, its small form,
and two letters beyond ASCII. A text without the capital forms that are several characters is made
capital letter by letter. -/
namespace ByteMachine.Text
variable {c capital : Char} {t name : List Char}

/-- The character is made the capital letter: the long s and the dotless i are made `S` and `I`. -/
def CapitalizesTo (c capital : Char) : Prop :=
  c.toUpper = capital ∨ c = 'ſ' ∧ capital = 'S' ∨ c = 'ı' ∧ capital = 'I'

theorem caseRuns_letters : ∀ run ∈ caseRuns,
    ((run.last : Int) + run.shift < 65 ∨ 90 < (run.first : Int) + run.shift) ∨
      run.first = 0x17F ∧ run.last = 0x17F ∧ run.shift = -300 ∨
      run.first = 0x131 ∧ run.last = 0x131 ∧ run.shift = -232 := by decide +kernel

theorem upperChar_cases (c : Char) :
    (∃ entry ∈ caseExpansions, upperChar c = entry.2.map Char.ofNat) ∨
      ∃ capital, upperChar c = [capital] ∧ (capital.isUpper → CapitalizesTo c capital) := by
  rw [upperChar]
  split
  · exact .inr ⟨_, rfl, fun _ => .inl rfl⟩
  next large =>
  split
  · next codes found =>
    obtain ⟨before, after, table, -⟩ := List.lookup_eq_some_iff.1 found
    exact .inl ⟨(c.toNat, codes), table ▸ List.mem_append_right _ List.mem_cons_self, rfl⟩
  · split
    · next run found =>
      refine .inr ⟨_, rfl, fun letter => .inr ?_⟩
      have holds := List.find?_some found
      simp only [CaseRun.holds, Bool.and_eq_true, decide_eq_true_eq] at holds
      have range := isUpper_iff.1 letter
      -- Two runs have a capital among the ASCII letters, and each has only one member.
      obtain apart | ⟨first, last, shift⟩ | ⟨first, last, shift⟩ :=
        caseRuns_letters run (List.mem_of_find?_eq_some found)
      · rcases toNat_ofNat (c.toNat + run.shift).toNat with same | zero <;> omega
      · have code : c.toNat = 0x17F := by omega
        exact .inl ⟨Char.toNat_inj.1 code, by rw [code, shift]; rfl⟩
      · have code : c.toNat = 0x131 := by omega
        exact .inr ⟨Char.toNat_inj.1 code, by rw [code, shift]; rfl⟩
    · refine .inr ⟨_, rfl, fun letter => ?_⟩
      have range := isUpper_iff.1 letter
      omega

theorem ascii_of_toUpper (letter : c.toUpper.isUpper) : c.toNat < 128 := by
  have range := isUpper_iff.1 letter
  by_cases lower : c.isLower
  · have small := isLower_iff.1 lower
    omega
  · have same : c.toUpper = c := dif_neg fun between => lower (isLower_iff.2 between)
    rw [same] at range
    omega

theorem upperChar_of_capitalizesTo (letter : capital.isUpper) (upper : CapitalizesTo c capital) :
    upperChar c = [capital] := by
  obtain rfl | ⟨rfl, rfl⟩ | ⟨rfl, rfl⟩ := upper
  · exact upperChar_ascii (ascii_of_toUpper letter)
  · decide
  · decide

/-- No part of the text is what some character is expanded to. -/
def Unexpanded (t : List Char) : Prop :=
  ∀ entry ∈ caseExpansions, ¬ entry.2.map Char.ofNat <:+: t

theorem Unexpanded.tail (plain : Unexpanded (c :: t)) : Unexpanded t :=
  fun entry listed part => plain entry listed (part.trans (List.suffix_cons c t).isInfix)

theorem uppercase_eq_iff (letters : ∀ capital ∈ name, capital.isUpper) (plain : Unexpanded name) :
    uppercase t = name ↔ List.Forall₂ CapitalizesTo t name := by
  induction t generalizing name with
  | nil => rw [List.forall₂_nil_left_iff, eq_comm, uppercase, List.flatMap_nil]
  | cons c t ih =>
    have step : uppercase (c :: t) = upperChar c ++ uppercase t := List.flatMap_cons
    rw [step]
    constructor
    · rintro rfl
      obtain ⟨entry, listed, expanded⟩ | ⟨capital, single, capitalizes⟩ := upperChar_cases c
      · have part := (List.prefix_append (upperChar c) (uppercase t)).isInfix
        exact absurd (expanded ▸ part) (plain entry listed)
      · rw [single, List.singleton_append] at letters plain ⊢
        obtain ⟨letter, letters⟩ := List.forall_mem_cons.1 letters
        exact .cons (capitalizes letter) ((ih letters plain.tail).1 rfl)
    · intro both
      obtain ⟨capital, rest, first, others, rfl⟩ := List.forall₂_cons_left_iff.1 both
      obtain ⟨letter, letters⟩ := List.forall_mem_cons.1 letters
      rw [upperChar_of_capitalizesTo letter first, (ih letters plain.tail).2 others]
      rfl

theorem toLower_eq_iff_of_capitalizesTo (letter : capital.isUpper)
    (upper : CapitalizesTo c capital) : c.toLower = capital.toLower ↔ c.toNat < 128 := by
  obtain rfl | ⟨rfl, rfl⟩ | ⟨rfl, rfl⟩ := upper
  · have ascii := ascii_of_toUpper letter
    refine iff_of_true ?_ ascii
    exact forall_ascii (p := fun c => c.toLower = c.toUpper.toLower) (by decide) ascii
  · decide
  · decide

theorem sameUpToCase_iff_of_capitalizesTo (letters : ∀ capital ∈ name, capital.isUpper)
    (upper : List.Forall₂ CapitalizesTo t name) :
    sameUpToCase t name ↔ ∀ c ∈ t, c.toNat < 128 := by
  rw [sameUpToCase, beq_iff_eq]
  induction upper with
  | nil => simp
  | cons first _ ih =>
    obtain ⟨letter, letters⟩ := List.forall_mem_cons.1 letters
    rw [List.forall_mem_cons, ← ih letters, ← toLower_eq_iff_of_capitalizesTo letter first]
    exact List.cons_eq_cons

end ByteMachine.Text
