/-! Lines of a text and fields of a line. A line feed ends a line, a carriage
return right before it belongs to the ending, and a text that ends with a line
feed has no empty line after it. -/
namespace ByteMachine.Text

def lines : List Char → List (List Char)
  | [] => []
  | '\r' :: '\n' :: rest => [] :: lines rest
  | '\n' :: rest => [] :: lines rest
  | c :: rest =>
    match lines rest with
    | [] => [[c]]
    | line :: more => (c :: line) :: more

theorem lines_nil : lines [] = [] := by simp [lines]

/-- The parts of a text between separators: one more than there are separators. -/
def fields (separator : Char) : List Char → List (List Char)
  | [] => [[]]
  | c :: rest =>
    if c = separator then [] :: fields separator rest
    else match fields separator rest with
      | [] => [[c]]
      | field :: more => (c :: field) :: more

theorem fields_length (separator : Char) (t : List Char) :
    (fields separator t).length = t.count separator + 1 := by
  induction t with
  | nil => rfl
  | cons c rest ih =>
    by_cases h : c = separator
    · simp [fields, h, ih]
    · cases hf : fields separator rest with
      | nil => simp [hf] at ih
      | cons field more => simp_all [fields]

def before (stop : Char → Bool) (t : List Char) : List Char := t.takeWhile (fun c => !stop c)

end ByteMachine.Text
