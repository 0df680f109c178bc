import ByteMachine.Text.Line

/-! The files a command works on. A path is walked, one name after the other, from
the root or from the working directory to a place; two spellings that lead to one
place name one file. Everything on the way to it has to be a directory. -/
namespace ByteMachine.CommandLine

abbrev Place := List String

/-- A file that is always empty for a reader and keeps nothing that is written to it. -/
inductive Device where
  | null
  | full
  | terminal
  | output
  | errors
deriving DecidableEq

inductive Content where
  | text (t : String)
  | binary (bytes : List UInt8)
  | device (d : Device)
deriving DecidableEq

inductive FileError where
  | notFound | noDevice | notDirectory | isDirectory | noSpace | nameTooLong | notText
deriving DecidableEq

def FileError.message : FileError → String
  | notFound => "No such file or directory (os error 2)"
  | noDevice => "No such device or address (os error 6)"
  | notDirectory => "Not a directory (os error 20)"
  | isDirectory => "Is a directory (os error 21)"
  | noSpace => "No space left on device (os error 28)"
  | nameTooLong => "File name too long (os error 36)"
  | notText => "stream did not contain valid UTF-8"

structure Files where
  working : Place
  files : List (Place × Content)
  /-- Directories, beside the working directory and those that hold a file. -/
  directories : List Place
  links : List (Place × Place)
  /-- Directories to which nothing can be added. -/
  fixed : List Place
deriving DecidableEq

namespace Files

def isDirectory (fs : Files) (place : Place) : Bool :=
  fs.directories.contains place || place.isPrefixOf fs.working ||
    fs.files.any fun (file, _) => place.isPrefixOf file && place.length < file.length

def content? (fs : Files) (place : Place) : Option Content := fs.files.lookup place

def obstacle (fs : Files) (place : Place) : FileError :=
  if (fs.content? place).isSome then .notDirectory else .notFound

def nameLimit : Nat := 255

def pathLimit : Nat := 4096

def follow (fs : Files) (place : Place) (name : String) : Place :=
  if name = "" ∨ name = "." then place
  else if name = ".." then place.dropLast
  else (fs.links.lookup (place ++ [name])).getD (place ++ [name])

def isPresent (fs : Files) (place : Place) : Bool :=
  fs.isDirectory place || (fs.content? place).isSome

/-- Follows names from a place on. The place at the end may be empty. -/
def walk (fs : Files) (place : Place) : List String → Except FileError Place
  | [] => .ok place
  | name :: rest =>
    if !fs.isDirectory place then .error (fs.obstacle place)
    else if fs.fixed.contains place && !fs.isPresent (fs.follow place name) then .error .notFound
    else if nameLimit < name.utf8ByteSize then .error .nameTooLong
    else walk fs (fs.follow place name) rest

def walkInto (fs : Files) (place : Place) (names : List String) : Except FileError Place := do
  let place ← fs.walk place names
  if fs.isDirectory place then return place else throw (fs.obstacle place)

def components (path : String) : List String := (Text.fields '/' path.toList).map String.ofList

def origin (fs : Files) (path : String) : Place :=
  if path.toList.head? = some '/' then [] else fs.working

def checkPath (path : String) : Except FileError Unit :=
  if path = "" then .error .notFound
  else if pathLimit ≤ path.utf8ByteSize then .error .nameTooLong
  else .ok ()

def read (fs : Files) (path : String) : Except FileError String := do
  checkPath path
  let place ← fs.walk (fs.origin path) (components path)
  match fs.content? place with
  | some (.text t) => return t
  | some (.binary _) => throw .notText
  | some (.device .terminal) => throw .noDevice
  | some (.device _) => return ""
  | none => throw (if fs.isDirectory place then .isDirectory else .notFound)

def put (fs : Files) (place : Place) (content : Content) : Files :=
  { fs with files := (place, content) :: fs.files.filter (·.1 != place) }

theorem content?_put (fs : Files) (place : Place) (content : Content) :
    (fs.put place content).content? place = some content := by
  simp [put, content?]

structure Saved where
  files : Files
  output : String
  errors : String

/-- Writes a text. Only devices refuse one: disks that become full midway are left out, so what is
written to an ordinary file is always written whole. -/
def write (fs : Files) (place : Place) (t : String) : Except FileError Saved :=
  match fs.content? place with
  | some (.device .null) => .ok ⟨fs, "", ""⟩
  | some (.device .full) => if t = "" then .ok ⟨fs, "", ""⟩ else .error .noSpace
  | some (.device .terminal) => .error .noDevice
  | some (.device .output) => .ok ⟨fs, t, ""⟩
  | some (.device .errors) => .ok ⟨fs, "", t⟩
  | _ => .ok ⟨fs.put place (.text t), "", ""⟩

/-- Writes a text to the file that a path leads to. The file need not exist yet, but
its directory has to; a path that ends in a slash can only be meant for a directory. -/
def save (fs : Files) (path : String) (t : String) : Except FileError Saved := do
  checkPath path
  let names := (components path).filter (· != "")
  let directory ← fs.walkInto (fs.origin path) names.dropLast
  if path.toList.getLast? = some '/' then throw .isDirectory
  let place ← fs.walk directory names.getLast?.toList
  if fs.isDirectory place then throw .isDirectory
  fs.write place t

def written (before after : Files) : List (Place × String) :=
  after.files.filterMap fun (place, content) =>
    match content with
    | .text t => if before.content? place = some content then none else some (place, t)
    | .binary _ | .device _ => none

end Files

end ByteMachine.CommandLine
