import ByteMachine.Assembly.Layout
import ByteMachine.Proofs.Result

/-! The two passes. The first goes on from a line exactly if the line can be read, and
the second has nothing to do for bytes that are known. -/
namespace ByteMachine.Assembly
variable {labels : Labels} {number offset : Nat}

theorem define_eq_ok_iff {text : List Char} {after : Labels} :
    define labels offset (some text) = .ok after ↔
      ∃ name, labelName text = .ok name ∧ labels.lookup name = none ∧
        after = (name, offset) :: labels := by
  rw [define, Except.bind_eq_ok_iff]
  refine exists_congr fun name => and_congr_right fun _ => ?_
  cases taken : labels.lookup name with
  | none =>
    simp only [Option.isSome_none, Bool.false_eq_true, if_false, true_and]
    exact Except.pure_eq_ok_iff.trans eq_comm
  | some earlier => simp [bind, Except.bind, throw, throwThe, MonadExceptOf.throw]

theorem readLine_eq_ok_iff {text : List Char} {after : Labels} {pieces : List Piece} :
    readLine labels offset text = .ok (after, pieces) ↔
      define labels offset (Line.ofText text).label = .ok after ∧
        statement (Line.ofText text).body = .ok pieces := by
  simp only [readLine, Except.bind_eq_ok_iff, Except.pure_eq_ok_iff, Prod.mk.injEq]
  constructor
  · rintro ⟨_, defined, _, read, rfl, rfl⟩
    exact ⟨defined, read⟩
  · rintro ⟨defined, read⟩
    exact ⟨after, defined, pieces, read, rfl, rfl⟩

theorem layout_cons {text : List Char} {after : Labels} {pieces : List Piece}
    (read : readLine labels offset text = .ok (after, pieces)) (rest : List (List Char)) :
    layout number offset labels (text :: rest) =
      (layout (number + 1) (offset + pieces.length) after rest).map fun more =>
        { more with pieces := pieces.map (number, ·) ++ more.pieces } := by
  rw [layout, read]

theorem layout_cons_eq_ok_iff {text : List Char} {rest : List (List Char)} {plan : Layout} :
    layout number offset labels (text :: rest) = .ok plan ↔
      ∃ after pieces more, readLine labels offset text = .ok (after, pieces) ∧
        layout (number + 1) (offset + pieces.length) after rest = .ok more ∧
        plan = ⟨pieces.map (number, ·) ++ more.pieces, more.labels⟩ := by
  rw [layout]
  cases readLine labels offset text with
  | error cause => simp
  | ok read =>
    obtain ⟨after, pieces⟩ := read
    simp only [Except.map_eq_ok_iff, Except.ok.injEq, Prod.mk.injEq]
    constructor
    · rintro ⟨more, laid, rfl⟩
      exact ⟨after, pieces, more, ⟨rfl, rfl⟩, laid, rfl⟩
    · rintro ⟨_, _, more, ⟨rfl, rfl⟩, laid, rfl⟩
      exact ⟨more, laid, rfl⟩

theorem layout_append {texts : List (List Char)} {plan : Layout}
    (laid : layout number offset labels texts = .ok plan) (more : List (List Char)) :
    layout number offset labels (texts ++ more) =
      (layout (number + texts.length) (offset + plan.pieces.length) plan.labels more).map
        fun rest => { rest with pieces := plan.pieces ++ rest.pieces } := by
  induction texts generalizing number offset labels plan with
  | nil =>
    cases laid
    cases same : layout number offset labels more <;> simp [Except.map, same]
  | cons text texts ih =>
    obtain ⟨after, pieces, behind, read, rest, rfl⟩ := layout_cons_eq_ok_iff.1 laid
    have lines : number + (text :: texts).length = number + 1 + texts.length := by
      rw [List.length_cons]
      omega
    have bytes : offset + (pieces.map (number, ·) ++ behind.pieces).length =
        offset + pieces.length + behind.pieces.length := by
      rw [List.length_append, List.length_map, Nat.add_assoc]
    rw [List.cons_append, layout_cons read, ih rest, lines, bytes]
    cases layout (number + 1 + texts.length) (offset + pieces.length + behind.pieces.length)
        behind.labels more with
    | error e => rfl
    | ok last => simp [Except.map]

theorem layout_of_blank {texts : List (List Char)}
    (blank : ∀ text ∈ texts, Line.ofText text = ⟨none, []⟩) (rest : List (List Char)) :
    layout number offset labels (texts ++ rest) =
      layout (number + texts.length) offset labels rest := by
  induction texts generalizing number with
  | nil => rfl
  | cons text texts ih =>
    have silent : readLine labels offset text = .ok (labels, []) := by
      rw [readLine_eq_ok_iff, blank text List.mem_cons_self]
      exact ⟨rfl, rfl⟩
    have others := fun other mem => blank other (List.mem_cons_of_mem _ mem)
    have next : number + (text :: texts).length = number + 1 + texts.length := by
      rw [List.length_cons]
      omega
    rw [List.cons_append, layout_cons silent, next, ← ih others]
    change (layout (number + 1) offset labels (texts ++ rest)).map id = _
    cases layout (number + 1) offset labels (texts ++ rest) <;> rfl

theorem layout_append_of_blank {behind : List (List Char)}
    (blank : ∀ text ∈ behind, Line.ofText text = ⟨none, []⟩) (texts : List (List Char)) :
    layout number offset labels (texts ++ behind) = layout number offset labels texts := by
  induction texts generalizing number offset labels with
  | nil =>
    have passed := @layout_of_blank labels number offset _ blank []
    rwa [List.append_nil] at passed
  | cons text texts ih =>
    rw [List.cons_append, layout, layout]
    split
    · rfl
    · rw [ih]

theorem mapM_resolve_byte {pieces : List (Nat × Piece)} {bytes : List UInt8}
    (known : pieces.map Prod.snd = bytes.map .byte) (labels : Labels) :
    pieces.mapM (resolve labels) = .ok bytes := by
  induction bytes generalizing pieces with
  | nil =>
    rw [List.map_eq_nil_iff.1 known]
    rfl
  | cons byte bytes ih =>
    obtain ⟨⟨line, piece⟩, rest, rfl, rfl, more⟩ := List.map_eq_cons_iff.1 known
    rw [List.mapM_cons, ih more, resolve]
    rfl

end ByteMachine.Assembly
