import ByteMachine.Proofs.Text.Blank
import ByteMachine.Text.Line
import Mathlib.Data.List.Forall2

/-! A text put together from lines is read as those lines, and a line put together
from fields as those fields. -/
namespace ByteMachine.Text

def unlines (ls : List (List Char)) : List Char := ls.flatMap (· ++ ['\n'])

def OneLine (line : List Char) : Prop := ∀ c ∈ line, c ≠ '\n' ∧ c ≠ '\r'

namespace OneLine

theorem of_word {word : List Char} (solid : Word word) : OneLine word := by
  intro c mem
  constructor <;> rintro rfl <;> exact solid.not_mem rfl mem

theorem of_all {t : List Char} (plain : t.all fun c => c != '\n' && c != '\r') : OneLine t := by
  simpa [OneLine] using plain

theorem append {s t : List Char} (left : OneLine s) (right : OneLine t) : OneLine (s ++ t) :=
  fun c mem => (List.mem_append.1 mem).elim (left c) (right c)

theorem intercalate {separator : List Char} {ls : List (List Char)} (one : OneLine separator)
    (each : ∀ line ∈ ls, OneLine line) : OneLine (separator.intercalate ls) := by
  induction ls with
  | nil => exact List.forall_mem_nil _
  | cons line ls ih =>
    have first := each line List.mem_cons_self
    have rest := ih fun other mem => each other (List.mem_cons_of_mem _ mem)
    cases ls with
    | nil => rwa [List.intercalate_singleton]
    | cons next ls =>
      rw [List.intercalate_cons_cons]
      exact (first.append one).append rest

end OneLine

theorem lines_append {line : List Char} (one : OneLine line) (rest : List Char) :
    lines (line ++ '\n' :: rest) = line :: lines rest := by
  induction line with
  | nil => simp [lines]
  | cons c line ih =>
    obtain ⟨noFeed, noReturn⟩ := one c List.mem_cons_self
    have tail : OneLine line := fun d mem => one d (List.mem_cons_of_mem _ mem)
    rw [List.cons_append, lines.eq_4 _ _ (fun _ h => absurd h noReturn) noFeed, ih tail]

theorem lines_unlines {ls : List (List Char)} (one : ∀ line ∈ ls, OneLine line) :
    lines (unlines ls) = ls := by
  induction ls with
  | nil => exact lines_nil
  | cons line ls ih =>
    have rest := ih fun other mem => one other (List.mem_cons_of_mem _ mem)
    rw [unlines, List.flatMap_cons, List.append_assoc, List.singleton_append,
      lines_append (one line List.mem_cons_self), ← unlines, rest]

variable {separator : Char} {field : List Char}

theorem fields_of_not_mem (whole : separator ∉ field) : fields separator field = [field] := by
  induction field with
  | nil => rfl
  | cons c field ih =>
    have head : c ≠ separator := fun same => whole (same ▸ List.mem_cons_self)
    rw [fields, if_neg head, ih (fun mem => whole (List.mem_cons_of_mem _ mem))]

theorem fields_append (whole : separator ∉ field) (rest : List Char) :
    fields separator (field ++ separator :: rest) = field :: fields separator rest := by
  induction field with
  | nil => rw [List.nil_append, fields, if_pos rfl]
  | cons c field ih =>
    have head : c ≠ separator := fun same => whole (same ▸ List.mem_cons_self)
    rw [List.cons_append, fields, if_neg head, ih (fun mem => whole (List.mem_cons_of_mem _ mem))]

variable {stop : Char → Bool} {t : List Char}

theorem before_append (kept : ∀ c ∈ t, stop c = false) {c : Char} (stops : stop c)
    (rest : List Char) : before stop (t ++ c :: rest) = t := by
  have taken : ∀ c ∈ t, (!stop c) = true := fun c mem => by simp [kept c mem]
  rw [before, List.takeWhile_append_of_pos taken, List.takeWhile_cons_of_neg (by simp [stops]),
    List.append_nil]

theorem before_eq_iff {kept : List Char} :
    before stop t = kept ↔ (∀ c ∈ kept, stop c = false) ∧
      ∃ rest, (∀ c ∈ rest.head?, stop c) ∧ kept ++ rest = t := by
  constructor
  · rintro rfl
    refine ⟨fun c mem => ?_, t.dropWhile fun c => !stop c, fun c mem => ?_,
      List.takeWhile_append_dropWhile⟩
    · simpa using List.all_eq_true.1 List.all_takeWhile c mem
    · simpa using of_mem_head?_dropWhile mem
  · rintro ⟨plain, rest, stops, rfl⟩
    cases rest with
    | nil =>
      have all : ∀ c ∈ kept, (!stop c) = true := fun c mem => by simp [plain c mem]
      have whole : (kept ++ []).takeWhile (fun c => !stop c) = kept ++ [].takeWhile _ :=
        List.takeWhile_append_of_pos all
      rw [before, whole, List.takeWhile_nil, List.append_nil]
    | cons c rest => exact before_append plain (stops c rfl) rest

theorem fields_eq_iff {parts : List (List Char)} :
    fields separator t = parts ↔ parts ≠ [] ∧ (∀ part ∈ parts, separator ∉ part) ∧
      [separator].intercalate parts = t := by
  constructor
  · rintro rfl
    induction t with
    | nil => simp [fields, List.intercalate]
    | cons c t ih =>
      obtain ⟨some, whole, joined⟩ := ih
      obtain ⟨part, more, split⟩ := List.exists_cons_of_ne_nil some
      rw [split] at whole joined
      by_cases same : c = separator
      · rw [fields, if_pos same, split]
        refine ⟨List.cons_ne_nil _ _, List.forall_mem_cons.2 ⟨List.not_mem_nil, whole⟩, ?_⟩
        rw [List.intercalate_cons_cons, joined, same]
        rfl
      · obtain ⟨first, rest⟩ := List.forall_mem_cons.1 whole
        have head : separator ∉ c :: part := fun mem =>
          (List.mem_cons.1 mem).elim (fun equal => same equal.symm) first
        rw [fields, if_neg same, split]
        refine ⟨List.cons_ne_nil _ _, List.forall_mem_cons.2 ⟨head, rest⟩, ?_⟩
        cases more with
        | nil => rw [← joined, List.intercalate_singleton, List.intercalate_singleton]
        | cons next more =>
          rw [← joined, List.intercalate_cons_cons, List.intercalate_cons_cons]
          rfl
  · rintro ⟨some, whole, rfl⟩
    induction parts with
    | nil => exact absurd rfl some
    | cons part parts ih =>
      obtain ⟨first, rest⟩ := List.forall_mem_cons.1 whole
      cases parts with
      | nil => rw [List.intercalate_singleton, fields_of_not_mem first]
      | cons next parts =>
        rw [List.intercalate_cons_cons, List.append_assoc, List.singleton_append,
          fields_append first, ih (List.cons_ne_nil _ _) rest]

/-! ### Line endings -/

theorem lines_eq_nil_iff : lines t = [] ↔ t = [] := by
  constructor
  · intro none
    cases t with
    | nil => rfl
    | cons c rest =>
      rw [lines.eq_def] at none
      split at none
      · contradiction
      · cases none
      · cases none
      · split at none <;> cases none
  · rintro rfl
    exact lines_nil

theorem lines_cons {c : Char} {rest line : List Char} {more : List (List Char)}
    (inner : ∀ after, c :: rest ≠ '\n' :: after ∧ c :: rest ≠ '\r' :: '\n' :: after)
    (split : lines rest = line :: more) : lines (c :: rest) = (c :: line) :: more := by
  have ending : ∀ after, c = '\r' → rest = '\n' :: after → False := by
    rintro after rfl rfl
    exact (inner after).2 rfl
  have feed : c = '\n' → False := by
    rintro rfl
    exact (inner rest).1 rfl
  rw [lines.eq_4 _ _ ending feed, split]

theorem lines_of_oneLine (one : OneLine t) (some : t ≠ []) : lines t = [t] := by
  induction t with
  | nil => exact absurd rfl some
  | cons c rest ih =>
    obtain ⟨noFeed, noReturn⟩ := one c List.mem_cons_self
    have tail : OneLine rest := fun d mem => one d (List.mem_cons_of_mem _ mem)
    by_cases last : rest = []
    · subst last
      rw [lines.eq_4 _ _ (fun _ same => absurd same noReturn) noFeed, lines_nil]
    · refine lines_cons (fun after => ⟨fun same => noFeed (List.cons.inj same).1, fun same =>
        noReturn (List.cons.inj same).1⟩) (ih tail last)

def Ended (whole line : List Char) : Prop := whole = line ∨ whole = line ++ ['\r']

theorem before_ended (stop : Char → Bool) (kept : stop '\r' = false) {whole line : List Char}
    (ended : Ended whole line) :
    ∃ blanks, (∀ c ∈ blanks, isBlank c) ∧ before stop whole = before stop line ++ blanks := by
  obtain rfl | rfl := ended
  · exact ⟨[], List.forall_mem_nil _, (List.append_nil _).symm⟩
  · simp only [before, List.takeWhile_append]
    split
    · next all =>
      have uncut := (List.takeWhile_prefix fun c => !stop c).eq_of_length all
      refine ⟨['\r'], List.forall_mem_singleton.2 rfl, ?_⟩
      rw [uncut, List.takeWhile_cons_of_pos (by simp [kept]), List.takeWhile_nil]
    · exact ⟨[], List.forall_mem_nil _, (List.append_nil _).symm⟩

/-- If a line feed and more text follow, the lines of a text stay, except that a carriage return
at the end becomes part of a line ending; and there may be an empty line before the others. -/
theorem lines_append_feed (s : List Char) : ∃ ls blanks,
    List.Forall₂ Ended (lines s) ls ∧ (∀ line ∈ blanks, line = []) ∧
      ∀ t, lines (s ++ '\n' :: t) = ls ++ blanks ++ lines t := by
  fun_induction lines s with
  | case1 => exact ⟨[], [[]], .nil, List.forall_mem_singleton.2 rfl, fun t => by simp [lines]⟩
  | case2 rest ih =>
    obtain ⟨ls, blanks, same, empty, split⟩ := ih
    exact ⟨[] :: ls, blanks, .cons (.inl rfl) same, empty, fun t => by simp [lines, split]⟩
  | case3 rest ih =>
    obtain ⟨ls, blanks, same, empty, split⟩ := ih
    exact ⟨[] :: ls, blanks, .cons (.inl rfl) same, empty, fun t => by simp [lines, split]⟩
  | case4 c rest ending feed none =>
    cases lines_eq_nil_iff.1 none
    by_cases carriage : c = '\r'
    · subst carriage
      exact ⟨[[]], [], .cons (.inr rfl) .nil, List.forall_mem_nil _, fun t => by simp [lines]⟩
    · have first (t : List Char) : lines ('\n' :: t) = [] :: lines t := by simp [lines]
      refine ⟨[[c]], [], .cons (.inl rfl) .nil, List.forall_mem_nil _, fun t =>
        lines_cons ?_ (first t)⟩
      intro after
      exact ⟨fun same => feed (List.cons.inj same).1, fun same => carriage (List.cons.inj same).1⟩
  | case5 c rest ending feed line more split ih =>
    obtain ⟨_, blanks, same, empty, whole⟩ := ih
    rw [split] at same
    obtain ⟨first, ls, here, there, rfl⟩ := List.forall₂_cons_left_iff.1 same
    refine ⟨(c :: first) :: ls, blanks, .cons ?_ there, empty, fun t =>
      lines_cons ?_ (whole t)⟩
    · exact here.imp (congrArg (c :: ·)) (congrArg (c :: ·))
    · have some : rest ≠ [] := fun none => by simp [lines_eq_nil_iff.2 none] at split
      obtain ⟨next, rest, rfl⟩ := List.exists_cons_of_ne_nil some
      intro after
      refine ⟨fun same => feed (List.cons.inj same).1, fun same => ?_⟩
      obtain ⟨carriage, same⟩ := List.cons.inj same
      exact ending rest carriage (congrArg (· :: rest) (List.cons.inj same).1)

end ByteMachine.Text
