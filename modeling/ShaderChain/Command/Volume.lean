import ShaderChain.Command.Files

/-! Files in memory: what is in the working directory and around it, and what has been printed.
The root and the directories above the working directory are there from the start, with nothing
else in them. -/

namespace ShaderChain

inductive Entry where
  | file (text : String)
  | directory
deriving DecidableEq

/-- A directory that needs no name: the root, or the one so many levels above the working
directory. -/
inductive Anchor where
  | root
  | above (levels : Nat)
deriving DecidableEq

/-- The anchor above one. The root is above itself. -/
def Anchor.parent : Anchor → Anchor
  | .root => .root
  | .above levels => .above (levels + 1)

/-- A place in the tree of files: the names on the way to it from an anchor. -/
structure Place where
  anchor : Anchor := .above 0
  names : Array String := #[]
deriving DecidableEq

namespace Place

def child (place : Place) (name : String) : Place :=
  { place with names := place.names.push name }

def parent (place : Place) : Place :=
  if place.names.isEmpty then { anchor := place.anchor.parent }
  else { place with names := place.names.pop }

end Place

/-- Entries by their places, one for each place. -/
structure Volume where
  entries : List (Place × Entry) := []
  printed : String := ""

namespace Volume

def get? (v : Volume) (place : Place) : Option Entry :=
  if place.names.isEmpty then some .directory else v.entries.lookup place

def put (v : Volume) (place : Place) (entry : Entry) : Volume :=
  { v with entries := (place, entry) :: v.entries.filter fun (other, _) => other != place }

theorem lookup_filter_ne {place other : Place} (h : place ≠ other)
    (entries : List (Place × Entry)) :
    (entries.filter fun (p, _) => p != other).lookup place = entries.lookup place := by
  induction entries with
  | nil => rfl
  | cons head entries ih =>
      obtain ⟨first, entry⟩ := head
      by_cases hfirst : first = other
      · subst hfirst
        have hplace : (place == first) = false := beq_false_of_ne h
        simpa [List.lookup_cons, hplace] using ih
      · by_cases hplace : place = first <;> simp_all [List.lookup_cons]

/-- An entry that is put shows at its place and nowhere else. -/
theorem get?_put (v : Volume) (other : Place) (entry : Entry) {place : Place}
    (h : place.names ≠ #[]) :
    (v.put other entry).get? place = if place = other then some entry else v.get? place := by
  by_cases hplace : place = other
  · subst hplace
    simp [get?, put, h]
  · have hother : (place == other) = false := beq_false_of_ne hplace
    simp [get?, put, h, hplace, hother, List.lookup_cons, lookup_filter_ne hplace]

/-- A volume that holds the given files in the working directory and the directories above
them. -/
def ofFiles : List (String × String) → Volume
  | [] => {}
  | (path, text) :: rest =>
      let names := (Path.parts path).toArray
      let dirs := (List.range (names.size - 1)).map fun n => names.take (n + 1)
      (dirs.foldl (fun v dir => v.put { names := dir } .directory) (ofFiles rest)).put
        { names } (.file text)

/-- The files in the working directory with their paths. -/
def files (v : Volume) : List (String × String) :=
  v.entries.filterMap fun (place, entry) =>
    match place, entry with
    | ⟨.above 0, names⟩, .file text => some ("/".intercalate names.toList, text)
    | _, _ => none

/-! A path is followed step by step. All steps but the last have to lead to directories. -/

def start (path : String) : Place :=
  { anchor := if path.toList.head? == some '/' then .root else .above 0 }

/-- The bytes that a name may have. -/
def maxName : Nat := 255

/-- The bytes that a path may have. -/
def maxPath : Nat := 4095

/-- What has a name in a directory. -/
def find (v : Volume) (dir : Place) (name : String) : Except FileError (Option Entry) :=
  if maxName < name.utf8ByteSize then .error .nameTooLong else .ok (v.get? (dir.child name))

def enter (v : Volume) (dir : Place) : String → Except FileError Place
  | "." => .ok dir
  | ".." => .ok dir.parent
  | name => do
      match ← v.find dir name with
      | some .directory => return dir.child name
      | some (.file _) => throw .notADirectory
      | none => throw .notFound

/-- What a path leads to. -/
inductive Target where
  /-- A directory, by a path that does not end with its name. -/
  | unnamed
  /-- A place with a name and what is there. -/
  | named (place : Place) (entry : Option Entry)

/-- The faults of a path that show before it is followed. -/
def checkPath (path : String) : Except FileError Unit :=
  if path.toList.contains '\x00' then .error .nulInName
  else if path.isEmpty then .error .notFound
  else if maxPath < path.utf8ByteSize then .error .nameTooLong
  else .ok ()

def follow (v : Volume) (path : String) : Except FileError Target := do
  checkPath path
  let steps := Path.steps path
  let dir ← steps.dropLast.foldlM v.enter (start path)
  match steps.getLast? with
  | none | some "." | some ".." => return .unnamed
  | some name => return .named (dir.child name) (← v.find dir name)

/-- Whether a path with a name at its end can only be that of a directory. -/
def endsInSlash (path : String) : Bool :=
  path.toList.getLast? == some '/'

def readText (v : Volume) (path : String) : Except FileError String := do
  match ← v.follow path with
  | .unnamed | .named _ (some .directory) => throw .isADirectory
  | .named _ (some (.file text)) =>
      if endsInSlash path then throw .notADirectory else return text
  | .named _ none => throw .notFound

def writeText (v : Volume) (path text : String) : Except FileError Volume := do
  match ← v.follow path with
  | .unnamed | .named _ (some .directory) => throw .isADirectory
  | .named place _ =>
      if endsInSlash path then throw .isADirectory else return v.put place (.file text)

def makeDir (v : Volume) (path : String) : Except FileError Volume := do
  match ← v.follow path with
  | .unnamed | .named _ (some _) => throw .exists
  | .named place none => return v.put place .directory

/-- Replaces the volume if that succeeds. -/
def update (f : Volume → Except FileError Volume) : StateM Volume (Except FileError Unit) := do
  match f (← get) with
  | .ok v => set v; return .ok ()
  | .error e => return .error e

instance : Files (StateM Volume) where
  readText path := return (← get).readText path
  makeDir path := update (·.makeDir path)
  writeText path text := update (·.writeText path text)
  print text := modify fun v => { v with printed := v.printed ++ text }

end Volume

end ShaderChain
