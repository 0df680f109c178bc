import ByteMachine.Proofs.Text.Case
import ByteMachine.Proofs.Text.Line

/-! Cutting a text does not look at case: it makes no difference whether letters are made small
before a text is cut into lines and fields and freed of its blanks, or afterwards. -/
namespace ByteMachine.Text
variable {t : List Char}

theorem toLower_toLower (c : Char) : c.toLower.toLower = c.toLower :=
  toLower_cases (p := fun _ lower => lower.toLower = lower) (by decide)
    (fun _ small => dif_neg fun range => by simp [isUpper_iff.2 range] at small) c

theorem asciiLowercase_asciiLowercase (t : List Char) :
    asciiLowercase (asciiLowercase t) = asciiLowercase t := by
  rw [asciiLowercase, asciiLowercase, List.map_map]
  exact List.map_congr_left fun c _ => toLower_toLower c

theorem upperChar_toLower (c : Char) : upperChar c.toLower = upperChar c :=
  toLower_cases (p := fun c lower => upperChar lower = upperChar c) (by decide) (fun _ _ => rfl) c

theorem uppercase_asciiLowercase (t : List Char) : uppercase (asciiLowercase t) = uppercase t := by
  rw [uppercase, uppercase, asciiLowercase, List.flatMap_map]
  exact congrArg (t.flatMap ·) (funext upperChar_toLower)

theorem isBlank_toLower (c : Char) : isBlank c.toLower = isBlank c :=
  toLower_cases (p := fun c lower => isBlank lower = isBlank c) (by decide) (fun _ _ => rfl) c

theorem beq_toLower {symbol : Char} (plain : symbol.isAlpha = false) (c : Char) :
    (c.toLower == symbol) = (c == symbol) := by
  rw [Bool.eq_iff_iff, beq_iff_eq, beq_iff_eq, toLower_eq_symbol plain]

/-! ### Runs -/

section Run
variable {p : Char → Bool}

theorem takeWhile_asciiLowercase (same : ∀ c : Char, p c.toLower = p c) (t : List Char) :
    (asciiLowercase t).takeWhile p = asciiLowercase (t.takeWhile p) := by
  rw [asciiLowercase, List.takeWhile_map, asciiLowercase]
  exact congrArg (fun q => (t.takeWhile q).map Char.toLower) (funext same)

theorem dropWhile_asciiLowercase (same : ∀ c : Char, p c.toLower = p c) (t : List Char) :
    (asciiLowercase t).dropWhile p = asciiLowercase (t.dropWhile p) := by
  rw [asciiLowercase, List.dropWhile_map, asciiLowercase]
  exact congrArg (fun q => (t.dropWhile q).map Char.toLower) (funext same)

theorem before_asciiLowercase (same : ∀ c : Char, p c.toLower = p c) (t : List Char) :
    before p (asciiLowercase t) = asciiLowercase (before p t) :=
  takeWhile_asciiLowercase (fun c => congrArg not (same c)) t

end Run

theorem asciiLowercase_reverse (t : List Char) :
    asciiLowercase t.reverse = (asciiLowercase t).reverse := List.map_reverse

theorem trim_asciiLowercase (t : List Char) :
    trim (asciiLowercase t) = asciiLowercase (trim t) := by
  rw [trim, trimEnd, trimStart, dropWhile_asciiLowercase isBlank_toLower, ← asciiLowercase_reverse,
    dropWhile_asciiLowercase isBlank_toLower, ← asciiLowercase_reverse]
  rfl

theorem firstRun_asciiLowercase (t : List Char) :
    firstRun (asciiLowercase t) = asciiLowercase (firstRun t) :=
  takeWhile_asciiLowercase (fun c => congrArg not (isBlank_toLower c)) t

theorem afterRun_asciiLowercase (t : List Char) :
    afterRun (asciiLowercase t) = asciiLowercase (afterRun t) :=
  dropWhile_asciiLowercase (fun c => congrArg not (isBlank_toLower c)) t

/-! ### Fields and lines -/

theorem mem_asciiLowercase {symbol : Char} (plain : symbol.isAlpha = false) :
    symbol ∈ asciiLowercase t ↔ symbol ∈ t := by
  rw [asciiLowercase, List.mem_map]
  constructor
  · rintro ⟨c, mem, lower⟩
    exact (toLower_eq_symbol plain c).1 lower ▸ mem
  · exact fun mem => ⟨symbol, mem, (toLower_eq_symbol plain symbol).2 rfl⟩

theorem fields_asciiLowercase {separator : Char} (plain : separator.isAlpha = false)
    (t : List Char) :
    fields separator (asciiLowercase t) = (fields separator t).map asciiLowercase := by
  induction t with
  | nil => rfl
  | cons c t ih =>
    have same := toLower_eq_symbol plain c
    change fields separator (c.toLower :: asciiLowercase t) = _
    by_cases here : c = separator
    · rw [fields, if_pos (same.2 here), fields, if_pos here, ih]
      rfl
    · rw [fields, if_neg (mt same.1 here), fields, if_neg here, ih]
      cases fields separator t <;> rfl

theorem lines_toLower_cons {c : Char} {rest : List Char}
    (ending : ∀ after, c = '\r' → rest = '\n' :: after → False) (feed : c = '\n' → False) :
    lines (asciiLowercase (c :: rest)) = match lines (asciiLowercase rest) with
      | [] => [[c.toLower]]
      | line :: more => (c.toLower :: line) :: more := by
  refine lines.eq_4 _ _ (fun after carriage next => ?_) fun small => feed ?_
  · obtain ⟨more, following, -⟩ := (asciiLowercase_cons_symbol rfl).1 next
    exact ending more ((toLower_eq_symbol rfl c).1 carriage) following
  · exact (toLower_eq_symbol rfl c).1 small

theorem lines_asciiLowercase (t : List Char) :
    lines (asciiLowercase t) = (lines t).map asciiLowercase := by
  fun_induction lines t with
  | case1 => exact lines_nil
  | case2 rest ih =>
    change lines ('\r' :: '\n' :: asciiLowercase rest) = _
    rw [lines, ih]
    rfl
  | case3 rest ih =>
    change lines ('\n' :: asciiLowercase rest) = _
    rw [lines, ih]
    rfl
  | case4 c rest ending feed none ih =>
    rw [lines_toLower_cons ending feed, ih, none]
    rfl
  | case5 c rest ending feed line more split ih =>
    rw [lines_toLower_cons ending feed, ih, split]
    rfl

end ByteMachine.Text
