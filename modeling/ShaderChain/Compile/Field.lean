import ShaderChain.Compile.Expr
import ShaderChain.Compile.Layer

/-! Fields: values that depend on a coordinate. Layers are composed into a field from the first
to the last. -/

namespace ShaderChain

/-- A value at every coordinate. -/
structure Field where
  type : Numeric
  value : Expr → Expr

namespace Field

/-- The coordinate itself. -/
def identity : Field :=
  ⟨.vec2, id⟩

def typedAt (f : Field) (coord : Expr) : Typed :=
  ⟨f.type, f.value coord⟩

/-- The value padded to a color. -/
def colorAt (f : Field) (coord : Expr) : Expr :=
  ((f.typedAt coord).widen (.numeric .vec4)).expr

/-- Composes a field with a transform of the given operand and arguments. -/
def compose (prior : Field) (t : Transform) (operand : Expr → Expr) (args : List Expr) : Field :=
  match t.category with
  | .source | .vertex | .raw => ⟨.vec4, fun q => .call t (q :: args)⟩
  | .coordinate => ⟨prior.type, fun q => prior.value (.call t (q :: args))⟩
  | .color => ⟨.vec4, fun q => .call t (prior.colorAt q :: args)⟩
  | .combine => ⟨.vec4, fun q => .call t (prior.colorAt q :: operand q :: args)⟩
  | .combineCoordinate =>
      ⟨prior.type, fun q => prior.value (.call t (q :: operand q :: args))⟩

end Field

/-- The coordinate that a program starts from. -/
def baseCoordinate : Expr :=
  .name "st"

namespace Typed

/-- Fits the value of a chain to where it is used. A getter always applies; without one a value
that is too wide loses its last components. -/
def fit (value : Typed) (getter : Option Swizzle) (target : ValueType) : Typed :=
  match getter with
  | some getter => (value.select getter).widen target
  | none => (value.narrow target).widen target

/-- Fits the value of the outermost chain, which only a getter makes narrower. -/
def finish (value : Typed) (getter : Option Swizzle) (target : ValueType) : Typed :=
  match getter with
  | some getter => (value.select getter).widen target
  | none => value.widen target

end Typed

/-- The type that is asked of a layer: what the next one takes, or else what the chain is to
give. -/
def Layer.expected (target : ValueType) : List Layer → ValueType
  | [] => target
  | next :: _ =>
      match next.transform.category.consumed? with
      | some type => .numeric type
      | none => target

/-- The type that is asked of an operand. -/
def Layer.operandTarget (t : Transform) (expected : ValueType) : ValueType :=
  match t.category with
  | .combineCoordinate => expected
  | _ => .numeric .vec4

mutual

/-- Composes `prior` with layers that are to give a value of the target type. -/
def Field.ofLayers (target : ValueType) (prior : Field) : List Layer → Field
  | [] => prior
  | ⟨t, operand, args⟩ :: rest =>
      let operandTarget := Layer.operandTarget t (Layer.expected target rest)
      let field := prior.compose t (Input.operandAt operandTarget operand)
        (Input.arguments t.params args)
      Field.ofLayers target field rest

/-- The operand of a layer at a coordinate: first of the type that is asked of it, then a
color. -/
def Input.operandAt (target : ValueType) : Option Input → Expr → Expr
  | none, _ => .vector .vec4 [.literal 0.0]
  | some (.literal value), _ =>
      (((Typed.mk .float (.literal value)).widen target).widen (.numeric .vec4)).expr
  | some (.uniform name), _ =>
      (((Typed.mk .float (.name name)).widen target).widen (.numeric .vec4)).expr
  | some (.chain layers getter), coord =>
      let value := (Field.ofLayers target .identity layers).typedAt coord
      ((value.fit getter target).widen (.numeric .vec4)).expr

def Input.arguments (params : List Param) : List Input → List Expr
  | [] => []
  | input :: rest =>
      match params with
      | [] => []
      | p :: params => Input.argument p.type input :: Input.arguments params rest

/-- The argument for a parameter. Chains are taken at the coordinate that the program starts
from. -/
def Input.argument (target : ValueType) : Input → Expr
  | .literal value => ((Typed.mk .float (.literal value)).widen target).expr
  | .uniform name => ((Typed.mk .float (.name name)).widen target).expr
  | .chain layers getter =>
      let value := (Field.ofLayers target .identity layers).typedAt baseCoordinate
      (value.fit getter target).expr

end

end ShaderChain
