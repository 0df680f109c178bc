import ByteMachine.Json.Reader
import ByteMachine.Json.Record
import ByteMachine.Proofs.Json.Token
import ByteMachine.Proofs.Result
import Mathlib.Data.List.Nodup

/-! Reading what was written. The reader takes the tokens of a value to the value, inside
whatever arrays and objects are open, so a value that is written as text is the one that the
text spells. A record gives its fields back in the order of their names. -/
namespace ByteMachine.Json

def Reads (v : Json) : Prop := ∀ stack, (toTokens v).foldlM Due.feed (.value stack) =
  some (.more v stack)

theorem Reads.append {v : Json} (reads : Reads v) (stack : List Frame) (rest : List Token) :
    (toTokens v ++ rest).foldlM Due.feed (.value stack) =
      rest.foldlM Due.feed (.more v stack) := by
  rw [List.foldlM_append, reads]
  rfl

theorem foldlM_cons {due next : Due} {token : Token} (rest : List Token)
    (feed : due.feed token = some next) :
    (token :: rest).foldlM Due.feed due = rest.foldlM Due.feed next := by
  rw [List.foldlM_cons, feed]
  rfl

theorem reads_items {items : List Json} (each : ∀ v ∈ items, Reads v) (some_item : items ≠ [])
    (before : List Json) (stack : List Frame) :
    (itemTokens items ++ [Token.closeArray]).foldlM Due.feed (.value (.array before :: stack)) =
      some (.more (.array (before.reverse ++ items)) stack) := by
  induction items generalizing before with
  | nil => exact absurd rfl some_item
  | cons item items ih =>
    have first := each item List.mem_cons_self
    cases items with
    | nil =>
      rw [itemTokens, first.append, foldlM_cons _ rfl, List.reverse_cons]
      rfl
    | cons next items =>
      have others := ih (fun v mem => each v (List.mem_cons_of_mem _ mem)) (List.cons_ne_nil _ _)
      rw [itemTokens_cons, List.append_assoc, first.append, List.cons_append, foldlM_cons _ rfl,
        others, List.reverse_cons, List.append_assoc, List.singleton_append]

theorem reads_members {members : List (Option String × Json)} (each : ∀ m ∈ members, Reads m.2)
    (some_member : members ≠ []) (before : List (Option String × Json)) (stack : List Frame) :
    (memberTokens members ++ [Token.closeObject]).foldlM Due.feed (.name before stack) =
      some (.more (.object (before.reverse ++ members)) stack) := by
  induction members generalizing before with
  | nil => exact absurd rfl some_member
  | cons member members ih =>
    obtain ⟨name, value⟩ := member
    have first : Reads value := each (name, value) List.mem_cons_self
    cases members with
    | nil =>
      rw [memberTokens, List.cons_append, List.cons_append, foldlM_cons _ rfl, foldlM_cons _ rfl,
        first.append, foldlM_cons _ rfl, List.reverse_cons]
      rfl
    | cons next members =>
      have others := ih (fun v mem => each v (List.mem_cons_of_mem _ mem)) (List.cons_ne_nil _ _)
      rw [memberTokens_cons, List.cons_append, List.cons_append, List.append_assoc,
        foldlM_cons _ rfl, foldlM_cons _ rfl, first.append, List.cons_append, foldlM_cons _ rfl,
        others, List.reverse_cons, List.append_assoc, List.singleton_append]

theorem head_toTokens (v : Json) :
    ∃ token rest, toTokens v = token :: rest ∧ token ≠ .closeArray := by
  cases v <;> exact ⟨_, _, rfl, nofun⟩

theorem head_itemTokens {items : List Json} (some_item : items ≠ []) :
    ∃ token rest, itemTokens items = token :: rest ∧ token ≠ .closeArray := by
  obtain ⟨item, items, rfl⟩ := List.exists_cons_of_ne_nil some_item
  obtain ⟨token, rest, tokens, begins⟩ := head_toTokens item
  cases items with
  | nil => exact ⟨token, rest, by rw [itemTokens, tokens], begins⟩
  | cons next items =>
    refine ⟨token, rest ++ .comma :: itemTokens (next :: items), ?_, begins⟩
    rw [itemTokens_cons, tokens, List.cons_append]

theorem feed_openArray (stack : List Frame) :
    Due.feed (.value stack) .openArray = some (.firstItem stack) := rfl

theorem feed_openObject (stack : List Frame) :
    Due.feed (.value stack) .openObject = some (.firstName stack) := rfl

theorem feed_firstItem (stack : List Frame) {token : Token} (begins : token ≠ .closeArray) :
    Due.feed (.firstItem stack) token = Due.feed (.value (.array [] :: stack)) token := by
  cases token <;> first | rfl | exact absurd rfl begins

theorem Plain.reads {v : Json} (plain : Plain v) : Reads v := by
  induction plain with
  | null | nat | string => exact fun _ => rfl
  | @array items _ each =>
    intro stack
    rw [toTokens, List.cons_append, foldlM_cons _ (feed_openArray stack)]
    by_cases none : items = []
    · subst none
      rfl
    · -- No value begins with the end of an array, so a first item is read as any other.
      obtain ⟨token, rest, tokens, begins⟩ := head_itemTokens none
      have inside := reads_items each none [] stack
      rw [tokens, List.cons_append, List.foldlM_cons] at inside ⊢
      rw [feed_firstItem stack begins, inside]
      rfl
  | @object members _ _ each =>
    intro stack
    rw [toTokens, List.cons_append, foldlM_cons _ (feed_openObject stack)]
    by_cases none : members = []
    · subst none
      rfl
    · have inside := reads_members each none [] stack
      obtain ⟨⟨name, value⟩, members, rfl⟩ := List.exists_cons_of_ne_nil none
      have begins : ∃ rest, memberTokens ((name, value) :: members) = .text name :: rest := by
        cases members <;> exact ⟨_, rfl⟩
      obtain ⟨rest, tokens⟩ := begins
      rw [tokens, List.cons_append, foldlM_cons _ rfl] at inside ⊢
      exact inside

theorem parse_render {v : Json} (plain : Plain v) : parse v.render = some v := by
  rw [parse, render, String.toList_ofList, tokens_compact plain]
  simp only [Option.bind_some, ofTokens?, plain.reads []]

/-! ### Numbers, bytes and records -/

theorem asNat?_nat (n : Nat) : (nat n).asNat? = some n := by
  rw [nat, asNat?, Text.decimal_eq_padded, Text.readNat?_padded (by decide) (by decide)]

theorem asByte?_nat (b : UInt8) : (nat b.toNat).asByte? = some b := by
  simp only [asByte?, asNat?_nat, if_pos b.toNat_lt, UInt8.ofNat_toNat]

theorem asWord?_nat {n : Nat} (small : n < UInt64.size) :
    (nat n).asWord? = some (UInt64.ofNat n) := by
  simp only [asWord?, asNat?_nat, if_pos small]

theorem asBytes?_bytes (bs : List UInt8) : (bytes bs).asBytes? = some bs := by
  have each : ∀ b ∈ bs, (asByte? ∘ fun b : UInt8 => nat b.toNat) b = some (id b) :=
    fun b _ => asByte?_nat b
  rw [bytes, asBytes?, List.mapM_map, Option.mapM_eq_some each, List.map_id]

theorem Plain.bytes (bs : List UInt8) : Plain (.bytes bs) := by
  refine .array fun v mem => ?_
  obtain ⟨b, -, rfl⟩ := List.mem_map.1 mem
  exact .nat _

theorem Plain.record {members : List (String × Json)} (plain : members.Forall fun m => Plain m.2) :
    Plain (.record members) := by
  refine .object (fun m mem => ?_) fun m mem => ?_ <;>
    obtain ⟨⟨name, value⟩, given, rfl⟩ := List.mem_map.1 mem
  · rfl
  · exact List.forall_iff_forall_mem.1 plain (name, value) given

theorem given_cons (name key : String) (value : Json) (members : List (Option String × Json)) :
    given name ((some key, value) :: members) =
      if key = name then value :: given name members else given name members := by
  rw [given, List.filterMap_cons]
  by_cases same : key = name
  · simp only [if_pos same, if_pos (congrArg some same)]
    rfl
  · simp only [if_neg same, if_neg fun some_same => same (Option.some.inj some_same)]
    rfl

variable {names : List String} {members : List (String × Json)} {name : String}

theorem mem_given {value : Json} :
    value ∈ given name (members.map fun (name, value) => (some name, value)) ↔
      (name, value) ∈ members := by
  simp [given, List.mem_filterMap]

theorem length_given :
    (given name (members.map fun (name, value) => (some name, value))).length =
      (members.map (·.1)).count name := by
  induction members with
  | nil => rfl
  | cons first members ih =>
    obtain ⟨key, value⟩ := first
    rw [List.map_cons, List.map_cons, given_cons, List.count_cons, ← ih]
    by_cases same : key = name <;> simp [same]

theorem given_of_not_mem (other : name ∉ members.map (·.1)) :
    given name (members.map fun (name, value) => (some name, value)) = [] := by
  rw [← List.length_eq_zero_iff, length_given, List.count_eq_zero_of_not_mem other]

theorem given_of_count {value : Json} (mem : (name, value) ∈ members)
    (once : (members.map (·.1)).count name = 1) :
    given name (members.map fun (name, value) => (some name, value)) = [value] := by
  obtain ⟨only, found⟩ := List.length_eq_one_iff.1 (length_given.trans once)
  have same := mem_given.2 mem
  rw [found, List.mem_singleton] at same
  rw [found, same]

theorem fields?_record_eq_mapM :
    fields? names (record members) =
      names.mapM (field? (members.map fun (name, value) => (some name, value))) := by
  have readable : (members.map fun m => (some m.1, m.2)).all (·.1.isSome) := by
    simp [List.all_eq_true]
  rw [record, fields?, if_pos readable]

theorem fields?_record (named : members.map (·.1) = names) (distinct : names.Nodup) :
    fields? names (record members) = some (members.map fun m => some m.2) := by
  subst named
  have each : ∀ m ∈ members,
      field? (members.map fun m => (some m.1, m.2)) m.1 = some (some m.2) := by
    intro m mem
    have once := List.count_eq_one_of_mem distinct (List.mem_map_of_mem mem)
    have one := given_of_count mem once
    simp only [field?, one]
  rw [fields?_record_eq_mapM, List.mapM_map]
  exact Option.mapM_eq_some each

end ByteMachine.Json
