import WordMachine.Text.Pieces
import WordMachine.Text.Quoted

/-! # Files

Files stand in a tree of directories, and a path names one of them from a place in the
tree.  A path is followed name by name, and the first name that leads nowhere decides
the error.

* `Place.enter` : one name of a path.
* `Place.read` : the contents of the file that a path names. -/

namespace WordMachine

/-- Why a file cannot be read. -/
inductive FileError where
  | notFound
  | permissionDenied
  | notADirectory
  /-- A directory can be opened, but not read. -/
  | isADirectory
  | nameTooLong
  deriving DecidableEq, Repr

namespace FileError

/-- The number of a file error. -/
def code : FileError → Nat
  | .notFound => 2
  | .permissionDenied => 13
  | .notADirectory => 20
  | .isADirectory => 21
  | .nameTooLong => 36

/-- The name of a file error. -/
def kind : FileError → String
  | .notFound => "NotFound"
  | .permissionDenied => "PermissionDenied"
  | .notADirectory => "NotADirectory"
  | .isADirectory => "IsADirectory"
  | .nameTooLong => "InvalidFilename"

/-- The description of a file error. -/
def description : FileError → String
  | .notFound => "No such file or directory"
  | .permissionDenied => "Permission denied"
  | .notADirectory => "Not a directory"
  | .isADirectory => "Is a directory"
  | .nameTooLong => "File name too long"

/-- The wording of a file error. -/
def message (e : FileError) : String :=
  e.description ++ " (os error " ++ Text.decimal e.code ++ ")"

/-- The parts of a file error. -/
def details (e : FileError) : String :=
  "Os \x7b code: " ++ Text.decimal e.code ++ ", kind: " ++ e.kind ++ ", message: " ++
    Text.quoted e.description ++ " \x7d"

end FileError

/-- A file with its contents, or a directory with its names. -/
inductive FileTree where
  | file (bytes : List UInt8)
  | directory (entries : List (String × FileTree))

/-- A place in a tree. -/
structure Place where
  here : FileTree
  /-- The directories that lead to the place, nearest first. -/
  above : List FileTree

namespace Place

/-- The number of bytes that a name may have. -/
def longestName : Nat := 255

/-- The number of bytes that a path may have. -/
def longestPath : Nat := 4095

/-- The directory that holds a place; the topmost one counts as its own. -/
def parent (p : Place) : Place :=
  match p.above with
  | [] => p
  | d :: ds => ⟨d, ds⟩

/-- The topmost directory. -/
def top (p : Place) : Place :=
  match p.above.getLast? with
  | none => p
  | some root => ⟨root, []⟩

/-- The place that a name leads to.  An empty name, as between two slashes or behind the
last one, leads back to the directory itself like a single point. -/
def enter (p : Place) (name : String) : Except FileError Place :=
  match p.here with
  | .file _ => .error .notADirectory
  | .directory entries =>
    if name = "" ∨ name = "." then .ok p
    else if name = ".." then .ok p.parent
    else if longestName < name.utf8ByteSize then .error .nameTooLong
    else
      match entries.lookup name with
      | some tree => .ok ⟨tree, p.here :: p.above⟩
      | none => .error .notFound

/-- The names that lead along a path. -/
def names (path : String) : List String :=
  (Text.pieces (· == '/') path.toList).map String.ofList

/-- The place that a path leads to: from the top if it begins with a slash. -/
def find (p : Place) (path : String) : Except FileError Place :=
  if path = "" then .error .notFound
  else if longestPath < path.utf8ByteSize then .error .nameTooLong
  else
    let start := if path.toList.head? = some '/' then p.top else p
    (names path).foldlM enter start

/-- The contents of the file that a path leads to. -/
def read (p : Place) (path : String) : Except FileError (List UInt8) :=
  match p.find path with
  | .error e => .error e
  | .ok q =>
    match q.here with
    | .file bytes => .ok bytes
    | .directory _ => .error .isADirectory

end Place
end WordMachine
