import ByteMachine.CommandLine.Files
import ByteMachine.Proofs.Result

/-! Where paths lead, and what is read there after a text was saved. To save asks the same of a
path as to read, so a text that was saved where there is no device is read again, and what was
read elsewhere is read as before. -/
namespace ByteMachine

namespace Text
variable {separator : Char}

theorem getLast?_fields (separator : Char) (t : List Char) :
    (fields separator t).getLast? = some [] ↔ t = [] ∨ t.getLast? = some separator := by
  induction t with
  | nil => exact iff_of_true rfl (.inl rfl)
  | cons c rest ih =>
    have length := fields_length separator rest
    obtain ⟨field, more, split⟩ := List.exists_cons_of_length_eq_add_one length
    rw [split] at ih length
    by_cases same : c = separator
    · rw [fields, if_pos same, split, List.getLast?_cons_cons, ih]
      cases rest with
      | nil => simp [same]
      | cons d rest => simp [List.getLast?_cons_cons]
    · rw [fields, if_neg same, split]
      cases more with
      | nil =>
        have none : separator ∉ rest := List.count_eq_zero.1 (Nat.succ.inj length).symm
        have last : (c :: rest).getLast? ≠ some separator := fun last =>
          (List.mem_cons.1 (List.mem_of_getLast? last)).elim (fun equal => same equal.symm) none
        simp [last]
      | cons next more =>
        have some : rest ≠ [] := by
          rintro rfl
          cases split
        simp only [List.getLast?_cons_cons] at ih ⊢
        rw [ih, List.getLast?_cons_of_ne_nil some]
        simp [some]

end Text

namespace CommandLine.Files
variable {fs : Files} {path t : String} {place last other : Place} {name : String}
  {names rest : List String} {content : Content}

/-! ### Walking -/

theorem walk_cons_eq_ok_iff : fs.walk place (name :: rest) = .ok last ↔
    fs.isDirectory place ∧ (fs.fixed.contains place → fs.isPresent (fs.follow place name)) ∧
      name.utf8ByteSize ≤ nameLimit ∧ fs.walk (fs.follow place name) rest = .ok last := by
  rw [walk]
  split
  · next outside =>
    exact iff_of_false (fun failed => nomatch failed) fun walked => by simp [walked.1] at outside
  · next inside =>
    split
    · next closed =>
      simp only [Bool.and_eq_true, Bool.not_eq_true'] at closed
      exact iff_of_false (fun failed => nomatch failed) fun walked =>
        Bool.false_ne_true (closed.2.symm.trans (walked.2.1 closed.1))
    · next free =>
      split
      · next long =>
        exact iff_of_false (fun failed => nomatch failed) fun walked =>
          Nat.not_lt.2 walked.2.2.1 long
      · next short =>
        refine ⟨fun walked => ⟨by simpa using inside, ?_, Nat.not_lt.1 short, walked⟩,
          fun walked => walked.2.2.2⟩
        simpa using free

theorem walk_append_eq_ok_iff : fs.walk place (names ++ rest) = .ok last ↔
    ∃ middle, fs.walk place names = .ok middle ∧ fs.walk middle rest = .ok last := by
  induction names generalizing place with
  | nil => simp [walk]
  | cons name names ih =>
    simp only [List.cons_append, walk_cons_eq_ok_iff, ih]
    constructor
    · rintro ⟨inside, free, short, middle, first, second⟩
      exact ⟨middle, ⟨inside, free, short, first⟩, second⟩
    · rintro ⟨middle, ⟨inside, free, short, first⟩, second⟩
      exact ⟨inside, free, short, middle, first, second⟩

theorem walkInto_eq_ok_iff : fs.walkInto place names = .ok last ↔
    fs.walk place names = .ok last ∧ fs.isDirectory last := by
  rw [walkInto, Except.bind_eq_ok_iff]
  constructor
  · rintro ⟨found, walked, inside⟩
    split at inside
    · next directory =>
      cases inside
      exact ⟨walked, directory⟩
    · cases inside
  · rintro ⟨walked, directory⟩
    exact ⟨last, walked, by rw [if_pos directory]; rfl⟩

theorem isDirectory_of_walk_cons (walked : fs.walk place (name :: rest) = .ok last) :
    fs.isDirectory place := (walk_cons_eq_ok_iff.1 walked).1

theorem walk_empty_cons : fs.walk place ("" :: rest) = .ok last ↔
    fs.isDirectory place ∧ fs.walk place rest = .ok last := by
  rw [walk_cons_eq_ok_iff]
  have same : fs.follow place "" = place := if_pos (.inl rfl)
  rw [same]
  constructor
  · rintro ⟨inside, -, -, walked⟩
    exact ⟨inside, walked⟩
  · rintro ⟨inside, walked⟩
    exact ⟨inside, fun _ => by simp [isPresent, inside], Nat.zero_le _, walked⟩

/-- Names that are empty can be left out, except at the end, where they ask for a directory. -/
theorem walk_filter_eq_ok_iff (ends : names.getLast? ≠ some "") :
    fs.walk place (names.filter (· != "")) = .ok last ↔ fs.walk place names = .ok last := by
  induction names generalizing place with
  | nil => rfl
  | cons name names ih =>
    cases names with
    | nil =>
      have some : name ≠ "" := by simpa using ends
      simp [some]
    | cons next names =>
      rw [List.getLast?_cons_cons] at ends
      by_cases empty : name = ""
      · rw [empty, List.filter_cons_of_neg (by simp), ih ends, walk_empty_cons]
        exact (and_iff_right_of_imp isDirectory_of_walk_cons).symm
      · rw [List.filter_cons_of_pos (by simpa using empty), walk_cons_eq_ok_iff,
          walk_cons_eq_ok_iff, ih ends]

/-! ### Where a path leads -/

def Leads (fs : Files) (path : String) (place : Place) : Prop :=
  checkPath path = .ok () ∧ fs.walk (fs.origin path) (components path) = .ok place

theorem Leads.unique (first : fs.Leads path place) (second : fs.Leads path other) :
    place = other := Except.ok.inj (first.2.symm.trans second.2)

def readAt (fs : Files) (place : Place) : Except FileError String :=
  match fs.content? place with
  | some (.text t) => return t
  | some (.binary _) => throw .notText
  | some (.device .terminal) => throw .noDevice
  | some (.device _) => return ""
  | none => throw (if fs.isDirectory place then .isDirectory else .notFound)

theorem read_eq_ok_iff :
    fs.read path = .ok t ↔ ∃ place, fs.Leads path place ∧ fs.readAt place = .ok t := by
  rw [read, Except.bind_eq_ok_iff]
  simp only [Except.bind_eq_ok_iff]
  constructor
  · rintro ⟨_, checked, place, walked, readable⟩
    exact ⟨place, ⟨checked, walked⟩, readable⟩
  · rintro ⟨place, ⟨checked, walked⟩, readable⟩
    exact ⟨(), checked, place, walked, readable⟩

theorem components_ne_nil (path : String) : components path ≠ [] := by
  have length := Text.fields_length '/' path.toList
  intro none
  rw [components, List.map_eq_nil_iff] at none
  rw [none] at length
  cases length

theorem getLast?_components (path : String) :
    (components path).getLast? = some "" ↔ path = "" ∨ path.toList.getLast? = some '/' := by
  have fields := Text.getLast?_fields '/' path.toList
  rw [String.toList_eq_nil_iff] at fields
  rw [components, List.getLast?_map, ← fields, Option.map_eq_some_iff]
  constructor
  · rintro ⟨field, last, empty⟩
    rw [last, String.ofList_eq_empty_iff.1 empty]
  · intro last
    exact ⟨[], last, rfl⟩

theorem names_ne_nil (ends : (components path).getLast? ≠ some "") :
    (components path).filter (· != "") ≠ [] := by
  cases final : (components path).getLast? with
  | none => exact absurd (List.getLast?_eq_none_iff.1 final) (components_ne_nil path)
  | some name =>
    have some : name ≠ "" := by
      rintro rfl
      exact ends final
    exact List.ne_nil_of_mem
      (List.mem_filter.2 ⟨List.mem_of_getLast? final, bne_iff_ne.2 some⟩)

theorem walk_eq_ok_iff_walkInto (some : names ≠ []) : fs.walk place names = .ok last ↔
    ∃ directory, fs.walkInto place names.dropLast = .ok directory ∧
      fs.walk directory names.getLast?.toList = .ok last := by
  obtain ⟨init, name, rfl⟩ := names.eq_nil_or_concat.resolve_left some
  rw [List.concat_eq_append, List.dropLast_concat, List.getLast?_concat, Option.toList_some, walk_append_eq_ok_iff]
  refine exists_congr fun directory => ?_
  rw [walkInto_eq_ok_iff, and_assoc, and_congr_right_iff]
  exact fun _ => (and_iff_right_of_imp isDirectory_of_walk_cons).symm

theorem Leads.ends (leads : fs.Leads path place) (file : fs.isDirectory place = false) :
    (components path).getLast? ≠ some "" := by
  intro final
  obtain ⟨init, split⟩ := List.getLast?_eq_some_iff.1 final
  have walked := leads.2
  rw [split, walk_append_eq_ok_iff] at walked
  obtain ⟨middle, -, stayed⟩ := walked
  obtain ⟨inside, same⟩ := walk_empty_cons.1 stayed
  cases same
  rw [inside] at file
  cases file

theorem save_eq_ok_iff {saved : Saved} : fs.save path t = .ok saved ↔
    ∃ place, fs.Leads path place ∧ fs.isDirectory place = false ∧ fs.write place t = .ok saved := by
  simp only [save, Except.bind_eq_ok_iff]
  constructor
  · rintro ⟨_, checked, directory, entered, saved⟩
    split at saved
    · cases saved
    · next closed =>
      have some : path ≠ "" := by
        rintro rfl
        cases checked
      have ends := mt (getLast?_components path).1 (not_or_intro some closed)
      obtain ⟨place, walked, saved⟩ := Except.bind_eq_ok_iff.1 saved
      split at saved
      · cases saved
      · next file =>
        refine ⟨place, ⟨checked, ?_⟩, Bool.eq_false_iff.2 file, saved⟩
        rw [← walk_filter_eq_ok_iff ends, walk_eq_ok_iff_walkInto (names_ne_nil ends)]
        exact ⟨directory, entered, walked⟩
  · rintro ⟨place, leads, file, written⟩
    have ends := leads.ends file
    have closed := mt (getLast?_components path).2 ends
    have walked := leads.2
    rw [← walk_filter_eq_ok_iff ends, walk_eq_ok_iff_walkInto (names_ne_nil ends)] at walked
    obtain ⟨directory, entered, walked⟩ := walked
    refine ⟨(), leads.1, directory, entered, ?_⟩
    rw [if_neg fun slash => closed (.inr slash)]
    refine Except.bind_eq_ok_iff.2 ⟨place, walked, ?_⟩
    rw [file]
    exact written

/-! ### After a text was put at a place -/

theorem lookup_filter_ne (apart : other ≠ place) (files : List (Place × Content)) :
    (files.filter (·.1 != place)).lookup other = files.lookup other := by
  induction files with
  | nil => rfl
  | cons file files ih =>
    obtain ⟨key, content⟩ := file
    by_cases same : key = place
    · have missed : (other == key) = false := by simpa [same] using apart
      rw [List.filter_cons_of_neg (by simp [same]), ih, List.lookup_cons, missed]
    · rw [List.filter_cons_of_pos (by simpa using same), List.lookup_cons, List.lookup_cons, ih]

theorem content?_put_of_ne (apart : other ≠ place) :
    (fs.put place content).content? other = fs.content? other := by
  have missed : (other == place) = false := by simpa using apart
  rw [content?, put, List.lookup_cons, missed]
  exact lookup_filter_ne apart fs.files

theorem isDirectory_put (inside : fs.isDirectory other) :
    (fs.put place content).isDirectory other := by
  simp only [isDirectory, Bool.or_eq_true, List.any_eq_true] at inside ⊢
  refine inside.imp_right fun ⟨file, mem, below⟩ => ?_
  by_cases same : file.1 = place
  · refine ⟨(place, content), List.mem_cons_self, ?_⟩
    rwa [← same]
  · exact ⟨file, List.mem_cons_of_mem _ (List.mem_filter.2 ⟨mem, bne_iff_ne.2 same⟩), below⟩

theorem isPresent_put (there : fs.isPresent other) :
    (fs.put place content).isPresent other := by
  rw [isPresent, Bool.or_eq_true] at there ⊢
  refine there.imp isDirectory_put fun stored => ?_
  by_cases same : other = place
  · rw [same, content?_put]
    rfl
  · rwa [content?_put_of_ne same]

theorem walk_put {start : Place} (walked : fs.walk start names = .ok last) :
    (fs.put place content).walk start names = .ok last := by
  induction names generalizing start with
  | nil => exact walked
  | cons name names ih =>
    obtain ⟨inside, free, short, walked⟩ := walk_cons_eq_ok_iff.1 walked
    exact walk_cons_eq_ok_iff.2
      ⟨isDirectory_put inside, fun fixed => isPresent_put (free fixed), short, ih walked⟩

theorem Leads.put (leads : fs.Leads path last) : (fs.put place content).Leads path last :=
  ⟨leads.1, walk_put leads.2⟩

theorem read_put_of_ne (leads : fs.Leads path other) (apart : other ≠ place)
    (before : fs.read path = .ok t) : (fs.put place content).read path = .ok t := by
  obtain ⟨found, led, readable⟩ := read_eq_ok_iff.1 before
  cases leads.unique led
  refine read_eq_ok_iff.2 ⟨other, leads.put, ?_⟩
  rw [readAt] at readable ⊢
  rw [content?_put_of_ne apart]
  split at readable
  · exact readable
  · cases readable
  · cases readable
  · exact readable
  · cases readable

/-- That a text can be saved at a path and is kept there: the path leads to a place that is no
directory and no device. -/
structure Keeps (fs : Files) (path : String) (place : Place) : Prop where
  leads : fs.Leads path place
  file : fs.isDirectory place = false
  regular : ∀ d, fs.content? place ≠ some (.device d)

theorem Keeps.of_absent (leads : fs.Leads path place) (file : fs.isDirectory place = false)
    (absent : fs.content? place = none) : fs.Keeps path place :=
  ⟨leads, file, fun _ device => nomatch absent.symm.trans device⟩

theorem write_of_regular (regular : ∀ d, fs.content? place ≠ some (.device d)) (t : String) :
    fs.write place t = .ok ⟨fs.put place (.text t), "", ""⟩ := by
  rw [write]
  split
  · next device => exact absurd device (regular _)
  · next device => exact absurd device (regular _)
  · next device => exact absurd device (regular _)
  · next device => exact absurd device (regular _)
  · next device => exact absurd device (regular _)
  · rfl

theorem Keeps.save (keeps : fs.Keeps path place) (t : String) :
    fs.save path t = .ok ⟨fs.put place (.text t), "", ""⟩ :=
  save_eq_ok_iff.2 ⟨place, keeps.leads, keeps.file, write_of_regular keeps.regular t⟩

theorem Keeps.read (keeps : fs.Keeps path place) (t : String) :
    (fs.put place (.text t)).read path = .ok t := by
  refine read_eq_ok_iff.2 ⟨place, keeps.leads.put, ?_⟩
  rw [readAt, content?_put]
  rfl

theorem keeps_of_save {saved : Saved} (stored : fs.save path t = .ok saved)
    (regular : ∀ place d, fs.Leads path place → fs.content? place ≠ some (.device d)) :
    ∃ place, fs.Keeps path place ∧ saved.files = fs.put place (.text t) := by
  obtain ⟨place, leads, file, written⟩ := save_eq_ok_iff.1 stored
  have kept := fun d => regular place d leads
  rw [write_of_regular kept] at written
  cases written
  exact ⟨place, ⟨leads, file, kept⟩, rfl⟩

end CommandLine.Files

end ByteMachine
