/-! The GLSL types of values. -/

namespace ShaderChain

/-- Types whose values have components. -/
inductive Numeric where
  | float
  | vec2
  | vec3
  | vec4
deriving DecidableEq

namespace Numeric

def glsl : Numeric → String
  | .float => "float"
  | .vec2 => "vec2"
  | .vec3 => "vec3"
  | .vec4 => "vec4"

/-- The number of components. -/
def width : Numeric → Nat
  | .float => 1
  | .vec2 => 2
  | .vec3 => 3
  | .vec4 => 4

def ofWidth? : Nat → Option Numeric
  | 1 => some .float
  | 2 => some .vec2
  | 3 => some .vec3
  | 4 => some .vec4
  | _ => none

theorem ofWidth?_width (type : Numeric) : ofWidth? type.width = some type := by
  cases type <;> rfl

/-- The wider one of two types. -/
def wider (a b : Numeric) : Numeric :=
  if a.width < b.width then b else a

theorem width_wider (a b : Numeric) : (a.wider b).width = Nat.max a.width b.width := by
  cases a <;> cases b <;> rfl

end Numeric

inductive ValueType where
  | numeric (type : Numeric)
  | texture
deriving DecidableEq

instance : Coe Numeric ValueType :=
  ⟨.numeric⟩

/-- Names of types and categories that are not known. -/
inductive TypeError where
  | unknownCategory (name : String)
  | unknownValueType (name : String)
deriving DecidableEq

def TypeError.message : TypeError → String
  | .unknownCategory name => s!"unknown operation category '{name}'"
  | .unknownValueType name => s!"unknown value type '{name}'"

namespace ValueType

/-- The type in a GLSL declaration. -/
def glsl : ValueType → String
  | .numeric type => type.glsl
  | .texture => "sampler2D"

/-- The type in a document. -/
def keyword : ValueType → String
  | .numeric type => type.glsl
  | .texture => "texture"

def ofKeyword? : String → Option ValueType
  | "float" => some (.numeric .float)
  | "vec2" => some (.numeric .vec2)
  | "vec3" => some (.numeric .vec3)
  | "vec4" => some (.numeric .vec4)
  | "texture" => some .texture
  | _ => none

theorem ofKeyword?_keyword (type : ValueType) : ofKeyword? type.keyword = some type := by
  cases type with
  | numeric type => cases type <;> rfl
  | texture => rfl

/-- The type of a parameter in a descriptor, which may also be given by other names. -/
def parse : String → Except TypeError ValueType
  | "float" | "f32" => .ok (.numeric .float)
  | "vec2" => .ok (.numeric .vec2)
  | "vec3" => .ok (.numeric .vec3)
  | "vec4" => .ok (.numeric .vec4)
  | "sampler2D" | "texture" => .ok .texture
  | name => .error (.unknownValueType name)

theorem parse_glsl (type : ValueType) : parse type.glsl = .ok type := by
  cases type with
  | numeric type => cases type <;> rfl
  | texture => rfl

def width? : ValueType → Option Nat
  | .numeric type => some type.width
  | .texture => none

/-- The wider one of two numeric types, and else the first. -/
def wider : ValueType → ValueType → ValueType
  | .numeric a, .numeric b => .numeric (a.wider b)
  | a, _ => a

end ValueType

end ShaderChain
