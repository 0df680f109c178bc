/-! Inversion of computations that may fail: a sequence succeeds exactly if each of
its parts does, and fails with the fault of the first part that fails. -/
namespace ByteMachine.Except
variable {ε ε' α β : Type}

theorem pure_eq_ok_iff {a b : α} : (pure a : Except ε α) = .ok b ↔ a = b :=
  ⟨Except.ok.inj, congrArg Except.ok⟩

theorem bind_eq_ok_iff {x : Except ε α} {f : α → Except ε β} {b : β} :
    x >>= f = .ok b ↔ ∃ a, x = .ok a ∧ f a = .ok b := by
  cases x with
  | error e => simp [bind, Except.bind]
  | ok a => simp [bind, Except.bind]

theorem bind_eq_error_iff {x : Except ε α} {f : α → Except ε β} {e : ε} :
    x >>= f = .error e ↔ x = .error e ∨ ∃ a, x = .ok a ∧ f a = .error e := by
  cases x with
  | error e' => simp [bind, Except.bind]
  | ok a => simp [bind, Except.bind]

theorem map_eq_ok_iff {x : Except ε α} {f : α → β} {b : β} :
    x.map f = .ok b ↔ ∃ a, x = .ok a ∧ f a = b := by
  cases x <;> simp [Except.map]

theorem map_eq_error_iff {x : Except ε α} {f : α → β} {e : ε} :
    x.map f = .error e ↔ x = .error e := by
  cases x <;> simp [Except.map]

theorem mapError_ok (f : ε → ε') (a : α) :
    (Except.ok a : Except ε α).mapError f = .ok a := rfl

theorem mapError_error (f : ε → ε') (e : ε) :
    (Except.error e : Except ε α).mapError f = .error (f e) := rfl

theorem mapError_eq_ok_iff {x : Except ε α} {f : ε → ε'} {a : α} :
    x.mapError f = .ok a ↔ x = .ok a := by
  cases x with
  | error e => simp [mapError_error]
  | ok b => simp [mapError_ok]

theorem mapError_bind (f : ε → ε') (x : Except ε α) (g : α → Except ε β) :
    (x >>= g).mapError f = x.mapError f >>= fun a => (g a).mapError f := by
  cases x <;> rfl

theorem mapError_map (f : ε → ε') (x : Except ε α) (g : α → β) :
    (x.map g).mapError f = (x.mapError f).map g := by
  cases x <;> rfl

theorem mapError_mapM (f : ε → ε') (g : α → Except ε β) (xs : List α) :
    (xs.mapM g).mapError f = xs.mapM fun x => (g x).mapError f := by
  induction xs with
  | nil => rfl
  | cons x xs ih => simp only [List.mapM_cons, mapError_bind, ih]; rfl

/-- What is wrong with the first member of a list that is wrong at all. -/
def First (Wrong : α → ε → Prop) (xs : List α) (e : ε) : Prop :=
  ∃ before x after, xs = before ++ x :: after ∧ (∀ y ∈ before, ∀ other, ¬ Wrong y other) ∧ Wrong x e

theorem first_nil {Wrong : α → ε → Prop} {e : ε} : ¬ First Wrong [] e := by
  rintro ⟨before, x, after, split, -⟩
  exact List.append_ne_nil_of_right_ne_nil before (List.cons_ne_nil x after) split.symm

theorem first_cons {Wrong : α → ε → Prop} {x : α} {xs : List α} {e : ε} :
    First Wrong (x :: xs) e ↔ Wrong x e ∨ (∀ other, ¬ Wrong x other) ∧ First Wrong xs e := by
  constructor
  · rintro ⟨_ | ⟨y, before⟩, z, after, split, fine, wrong⟩
    · obtain ⟨rfl, rfl⟩ := List.cons.inj split
      exact .inl wrong
    · obtain ⟨rfl, rfl⟩ := List.cons.inj split
      obtain ⟨here, fine⟩ := List.forall_mem_cons.1 fine
      exact .inr ⟨here, before, z, after, rfl, fine, wrong⟩
  · rintro (wrong | ⟨here, before, z, after, rfl, fine, wrong⟩)
    · exact ⟨[], x, xs, rfl, List.forall_mem_nil _, wrong⟩
    · exact ⟨x :: before, z, after, rfl, List.forall_mem_cons.2 ⟨here, fine⟩, wrong⟩

theorem exists_first_iff {Wrong : α → ε → Prop} {xs : List α} :
    (∃ e, First Wrong xs e) ↔ ∃ x ∈ xs, ∃ e, Wrong x e := by
  induction xs with
  | nil => exact iff_of_false (fun ⟨_, first⟩ => first_nil first) nofun
  | cons x xs ih =>
    simp only [first_cons, List.mem_cons, exists_eq_or_imp, exists_or, exists_and_left, ih]
    refine ⟨Or.imp_right And.right, fun wrong => ?_⟩
    by_cases here : ∃ e, Wrong x e
    · exact .inl here
    · exact .inr ⟨not_exists.1 here, wrong.resolve_left here⟩

/-- What a computation comes to, told by one relation for success and one for failure. -/
structure Exact (x : Except ε α) (Succeeds : α → Prop) (Fails : ε → Prop) : Prop where
  ok : ∀ a, x = .ok a ↔ Succeeds a
  error : ∀ e, x = .error e ↔ Fails e

namespace Exact
variable {x : Except ε α} {Succeeds : α → Prop} {Fails : ε → Prop}

theorem of_total (succeeds : ∀ a, Succeeds a → x = .ok a) (fails : ∀ e, Fails e → x = .error e)
    (total : (∃ a, Succeeds a) ∨ ∃ e, Fails e) : Exact x Succeeds Fails := by
  constructor
  · refine fun a => ⟨fun ended => ?_, succeeds a⟩
    obtain ⟨b, right⟩ | ⟨e, wrong⟩ := total
    · exact Except.ok.inj ((succeeds b right).symm.trans ended) ▸ right
    · cases (fails e wrong).symm.trans ended
  · refine fun e => ⟨fun ended => ?_, fails e⟩
    obtain ⟨b, right⟩ | ⟨other, wrong⟩ := total
    · cases (succeeds b right).symm.trans ended
    · exact Except.error.inj ((fails other wrong).symm.trans ended) ▸ wrong

theorem total (exact : Exact x Succeeds Fails) : (∃ a, Succeeds a) ∨ ∃ e, Fails e := by
  cases ended : x with
  | ok a => exact .inl ⟨a, (exact.ok a).1 ended⟩
  | error e => exact .inr ⟨e, (exact.error e).1 ended⟩

end Exact

def error? : Except ε α → Option ε
  | .ok _ => none
  | .error e => some e

theorem error?_congr {x : Except ε α} {y : Except ε β} (same : error? x = error? y) :
    (∃ e, x = .error e ∧ y = .error e) ∨ ∃ a b, x = .ok a ∧ y = .ok b := by
  cases x with
  | error e =>
    cases y with
    | error e' => exact .inl ⟨e, rfl, congrArg Except.error (Option.some.inj same).symm⟩
    | ok b => cases same
  | ok a =>
    cases y with
    | error e => cases same
    | ok b => exact .inr ⟨a, b, rfl, rfl⟩

end ByteMachine.Except

namespace ByteMachine.Option

theorem mapM_eq_some {α β : Type} {f : α → Option β} {g : α → β} {xs : List α}
    (each : ∀ x ∈ xs, f x = some (g x)) : xs.mapM f = some (xs.map g) := by
  induction xs with
  | nil => rfl
  | cons x xs ih =>
    rw [List.mapM_cons, each x List.mem_cons_self,
      ih fun y mem => each y (List.mem_cons_of_mem _ mem)]
    rfl

end ByteMachine.Option
