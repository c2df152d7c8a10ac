/-! Files and the console, as far as the command line needs them. -/

namespace ShaderChain

inductive FileError where
  | notFound
  | exists
  | notADirectory
  | isADirectory
  | nameTooLong
  | nulInName
  | other (text : String)
deriving DecidableEq

def FileError.message : FileError → String
  | .notFound => "No such file or directory (os error 2)"
  | .exists => "File exists (os error 17)"
  | .notADirectory => "Not a directory (os error 20)"
  | .isADirectory => "Is a directory (os error 21)"
  | .nameTooLong => "File name too long (os error 36)"
  | .nulInName => "file name contained an unexpected NUL byte"
  | .other text => text

/-- What a command may do to the world. -/
class Files (m : Type → Type) where
  readText : String → m (Except FileError String)
  /-- Makes a directory in one that is there. -/
  makeDir : String → m (Except FileError Unit)
  writeText : String → String → m (Except FileError Unit)
  print : String → m Unit

/-! Paths as texts. -/

namespace Path

/-- What stands between the slashes of a text, which may be nothing. -/
def pieces : List Char → List (List Char)
  | [] => [[]]
  | '/' :: rest => [] :: pieces rest
  | c :: rest =>
      match pieces rest with
      | [] => [[c]]
      | piece :: others => (c :: piece) :: others

/-- The steps that lead to a path, each a name, a dot for the same directory, or two dots for the
one above. -/
def steps (path : String) : List String :=
  ((pieces path.toList).filter fun piece => !piece.isEmpty).map String.ofList

/-- The steps of a path that lead on. -/
def parts (path : String) : List String :=
  (steps path).filter (· != ".")

/-- The path of some parts, given from the last to the first, that starts where `path` starts. -/
def ofParts (path : String) (reversed : List String) : String :=
  (if path.toList.head? == some '/' then "/" else "") ++ "/".intercalate reversed.reverse

/-- The paths of a directory and of those above it. The parts are given from the last to the
first. -/
def upward (path : String) : List String → List String
  | [] => []
  | name :: above => ofParts path (name :: above) :: upward path above

/-- A path as it is given, then those of the directories above it. -/
def ancestry (path : String) : List String :=
  path :: upward path (parts path).reverse.tail

/-- The last part without its extension, if it is a name. A dot in front starts no extension. -/
def stem? (path : String) : Option String :=
  match (parts path).getLast? with
  | none | some ".." => none
  | some name =>
      let tail := name.toList.reverse
      match tail.dropWhile (· != '.') with
      | [] | [_] => some name
      | _ :: rest => some (String.ofList rest.reverse)

/-- The path of a file in a directory. -/
def join (dir name : String) : String :=
  if dir.isEmpty || dir.toList.getLast? == some '/' then dir ++ name else dir ++ "/" ++ name

end Path

/-! A directory is made as soon as the one above it is there. One that is there already is as
good as made. -/

namespace Files

variable {m : Type → Type} [Monad m] [Files m]

/-- Whether a path is that of a directory, which shows when it is read. -/
def isDirectory (path : String) : m Bool := do
  match ← readText path with
  | .error .isADirectory => return true
  | _ => return false

/-- Forgives a failure to make a directory that is there. -/
def orPresent (path : String) : Except FileError Unit → m (Except FileError Unit)
  | .ok () => return .ok ()
  | .error e => return if ← isDirectory path then .ok () else .error e

/-- Makes the first of some directories, each of which is to stand in the next one. -/
def makeDirsAlong : List String → m (Except FileError Unit)
  | [] => return .ok ()
  | target :: above => do
      match ← makeDir target with
      | .error .notFound =>
          match ← makeDirsAlong above with
          | .ok () => orPresent target (← makeDir target)
          | .error e => return .error e
      | result => orPresent target result

/-- Makes a directory, and those above it, unless it is there. The empty path asks for none. -/
def makeDirs (path : String) : m (Except FileError Unit) :=
  if path.isEmpty then return .ok () else makeDirsAlong (Path.ancestry path)

end Files

end ShaderChain
