import ShaderChain.Compile.Field

/-! Compiled chains. -/

namespace ShaderChain

/-- An expression in the base coordinate, with what it refers to. -/
structure Compiled where
  body : Expr
  type : ValueType
  uniforms : List Uniform
  functions : List Transform
  /-- Whether the chain starts with a displacement of vertices. -/
  vertexStage : Bool

namespace Compiled

def startsAtVertex : List Layer → Bool
  | [] => false
  | first :: _ => first.transform.category = .vertex

/-- The expression of a chain that has been resolved. -/
def ofLayers (getter : Option Swizzle) (target : ValueType) (layers : List Layer)
    (resources : Resources) : Compiled :=
  let value := (Field.ofLayers target .identity layers).typedAt baseCoordinate
  let value := value.finish getter target
  { body := value.expr
    type := .numeric value.type
    uniforms := resources.uniforms
    functions := resources.functions
    vertexStage := startsAtVertex layers }

end Compiled

namespace Chain

/-- The layers of a chain for a stage. -/
def resolve (registry : Registry) (stage : Stage) (c : Chain) :
    Except CompileError (List Layer × Resources) :=
  Resolve.nodes registry stage [] "" 0 c.nodes |>.run {}

/-- Compiles a chain to an expression that is at least as wide as the target. Only a getter makes
it narrower than it is. -/
def compile (registry : Registry) (c : Chain) (target : ValueType) :
    Except CompileError Compiled := do
  let (layers, resources) ← c.resolve registry .fragment
  return .ofLayers c.getter target layers resources

/-- Looks up the transforms of the nodes from a position on. -/
def checkNames (registry : Registry) (position : Nat) : List Node → Except CompileError Unit
  | [] => .ok ()
  | node :: rest => do
      let _ ← Resolve.lookup registry position node
      checkNames registry (position + 1) rest

/-- Compiles a chain for the vertex stage. The nodes that are kept stay at their positions, so
that the uniforms have the names they have in the fragment stage. -/
def compileVertex (registry : Registry) (c : Chain) : Except CompileError Compiled := do
  checkNames registry 0 c.nodes
  let (layers, resources) ← c.resolve registry .vertex
  return .ofLayers c.getter (.numeric .vec4) layers resources

end Chain

end ShaderChain
