import ShaderChain.Glsl.Swizzle
import ShaderChain.Number.Literal
import ShaderChain.Transform.Basic

/-! GLSL expressions that call transforms, their text, and the padding of values to wider
types. -/

namespace ShaderChain

inductive Expr where
  | literal (value : Binary64)
  /-- A variable or uniform. -/
  | name (text : String)
  | call (transform : Transform) (args : List Expr)
  /-- A constructor of a vector from scalars and shorter vectors. -/
  | vector (type : Numeric) (parts : List Expr)
  | swizzle (value : Expr) (getter : Swizzle)

namespace Expr

/-! The text of an expression. -/

mutual

def render : Expr → String
  | .literal value => value.literal
  | .name text => text
  | .call t args => t.symbol ++ "(" ++ renderList args ++ ")"
  | .vector type parts => type.glsl ++ "(" ++ renderList parts ++ ")"
  | .swizzle value getter => render value ++ "." ++ getter.text

def renderList : List Expr → String
  | [] => ""
  | [e] => render e
  | e :: rest => render e ++ ", " ++ renderList rest

end

/-! Padding appends components up to the wider type. A `vec4` keeps `fill` for its last
component and has zeros before it. -/

/-- What fills the components from `width` to the end of the type. -/
def padding (width : Nat) (type : Numeric) (fill : Binary64) : List Expr :=
  match type with
  | .vec4 => List.replicate (3 - width) (.literal 0.0) ++ [.literal fill]
  | type => List.replicate (type.width - width) (.literal fill)

/-- Pads `e` of type `source` to `target`, unless it is as wide already. -/
def pad (e : Expr) (source target : Numeric) (fill : Binary64) : Expr :=
  if source.width < target.width then
    .vector target (e :: padding source.width target fill)
  else e

/-- Padding between types of values. Textures are left alone. -/
def coerce (e : Expr) (source target : ValueType) (fill : Binary64) : Expr :=
  match source, target with
  | .numeric source, .numeric target => e.pad source target fill
  | _, _ => e

end Expr

/-- An expression with its type. -/
structure Typed where
  type : Numeric
  expr : Expr

namespace Typed

/-- Pads a value with zeros up to the target, if that is wider. -/
def widen (value : Typed) : ValueType → Typed
  | .numeric target => ⟨value.type.wider target, value.expr.pad value.type target 0.0⟩
  | .texture => value

def select (value : Typed) (getter : Swizzle) : Typed :=
  ⟨getter.type, .swizzle value.expr getter⟩

/-- Drops the last components of a value that is wider than the target. -/
def narrow (value : Typed) : ValueType → Typed
  | .numeric target =>
      if target.width < value.type.width then value.select (.leading target) else value
  | .texture => value

end Typed

end ShaderChain
