import ShaderChain.Transform.Basic
import ShaderChain.Update

/-! Registries of transforms, in the order in which their names were first registered. -/

namespace ShaderChain

structure Registry where
  transforms : List Transform

namespace Registry

def empty : Registry :=
  ⟨[]⟩

def find? (r : Registry) (name : String) : Option Transform :=
  r.transforms.find? (·.name == name)

def contains (r : Registry) (name : String) : Bool :=
  r.transforms.any (·.name == name)

def size (r : Registry) : Nat :=
  r.transforms.length

def names (r : Registry) : List String :=
  r.transforms.map (·.name)

/-- The transforms that may start a chain. -/
def roots (r : Registry) : List Transform :=
  r.transforms.filter (·.category.isRoot)

/-- Puts a transform in the place of the one with its name, or else at the end. -/
def insert (r : Registry) (t : Transform) : Registry :=
  if r.contains t.name then
    ⟨r.transforms.map fun u => if u.name == t.name then t else u⟩
  else ⟨r.transforms ++ [t]⟩

/-- Registries are changed in place. -/
abbrev Edit :=
  Update RegistrationError Registry

/-- Registers a descriptor, which has to be valid before the registry is changed. -/
def Edit.register (d : Descriptor) : Edit Transform := do
  let t ← d.normalize
  modifyGet fun r => (t, r.insert t)

def register (r : Registry) (d : Descriptor) : Except RegistrationError Registry :=
  (Edit.register d).on r

/-- Registers the descriptors that can be, and returns the errors of the others. -/
def extend (r : Registry) (ds : List Descriptor) : List RegistrationError × Registry :=
  (Update.collect Edit.register ds).run r

def ofDescriptors (ds : List Descriptor) : Registry :=
  (empty.extend ds).2

/-- The signatures of all transforms with their categories, and the names of the roots. -/
def listing (r : Registry) : String :=
  let line (t : Transform) : String :=
    String.ofList (t.category.name.toList.rightpad 14 ' ') ++ " " ++ t.signature ++ "\n"
  String.join (r.transforms.map line) ++
    "\nchain roots: " ++ ", ".intercalate (r.roots.map (·.name)) ++ "\n"

end Registry

end ShaderChain
