import ShaderChain.Glsl.Type

/-! The categories of transforms. A category fixes how a transform composes with what stands
before it in a chain, and the leading part of its GLSL signature. -/

namespace ShaderChain

inductive Category where
  /-- Gives a color for a coordinate. -/
  | source
  /-- Changes the coordinate that all before it is taken at. -/
  | coordinate
  /-- Changes the color. -/
  | color
  /-- Mixes the color with that of another chain. -/
  | combine
  /-- Changes the coordinate by the color of another chain. -/
  | combineCoordinate
  /-- Gives the displacement of a vertex. -/
  | vertex
  /-- Gives a color, by a function whose text is not touched. -/
  | raw
deriving DecidableEq

/-- What the functions of a category return, and the arguments that come first in all of them. -/
structure Signature where
  result : Numeric
  leading : List (Numeric × String)

namespace Category

def all : List Category :=
  [.source, .coordinate, .color, .combine, .combineCoordinate, .vertex, .raw]

def name : Category → String
  | .source => "src"
  | .coordinate => "coord"
  | .color => "color"
  | .combine => "combine"
  | .combineCoordinate => "combineCoord"
  | .vertex => "vert"
  | .raw => "raw"

def parse : String → Except TypeError Category
  | "src" | "source" => .ok .source
  | "coord" | "coordinate" => .ok .coordinate
  | "color" => .ok .color
  | "combine" => .ok .combine
  | "combineCoord" | "combineCoordinate" => .ok .combineCoordinate
  | "vert" | "vertex" => .ok .vertex
  | "raw" => .ok .raw
  | name => .error (.unknownCategory name)

theorem parse_name (category : Category) : parse category.name = .ok category := by
  cases category <;> rfl

def signature : Category → Signature
  | .source | .vertex | .raw => ⟨.vec4, [(.vec2, "_st")]⟩
  | .coordinate => ⟨.vec2, [(.vec2, "_st")]⟩
  | .color => ⟨.vec4, [(.vec4, "_c0")]⟩
  | .combine => ⟨.vec4, [(.vec4, "_c0"), (.vec4, "_c1")]⟩
  | .combineCoordinate => ⟨.vec2, [(.vec2, "_st"), (.vec4, "_c0")]⟩

/-- Whether a transform may start a chain. -/
def isRoot : Category → Bool
  | .source | .coordinate | .vertex | .raw => true
  | .color | .combine | .combineCoordinate => false

/-- Whether a transform may only start a chain. -/
def isRootOnly : Category → Bool
  | .source | .vertex => true
  | _ => false

/-- Whether a transform discards all before it. -/
def resets : Category → Bool
  | .source | .vertex | .raw => true
  | _ => false

/-- Whether the first binding is an operand, evaluated at the transform's own coordinate. -/
def hasOperand : Category → Bool
  | .combine | .combineCoordinate => true
  | _ => false

/-- The type that a transform takes from what stands before it. -/
def consumed? : Category → Option Numeric
  | .coordinate | .combineCoordinate => some .vec2
  | .color | .combine => some .vec4
  | .source | .vertex | .raw => none

end Category

end ShaderChain
