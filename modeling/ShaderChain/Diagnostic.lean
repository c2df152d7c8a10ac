import ShaderChain.Compile.Resources
import ShaderChain.Number.Literal
import ShaderChain.Text.Quoted

/-! Texts that show the structure of chains and uniforms. -/

namespace ShaderChain

namespace Diagnostic

/-- A name with fields in braces. -/
def record (name : String) (fields : List String) : String :=
  name ++ " \x7b " ++ ", ".intercalate fields ++ " \x7d"

def list (items : List String) : String :=
  "[" ++ ", ".intercalate items ++ "]"

def category : Category → String
  | .source => "Source"
  | .coordinate => "Coordinate"
  | .color => "Color"
  | .combine => "Combine"
  | .combineCoordinate => "CombineCoordinate"
  | .vertex => "Vertex"
  | .raw => "Raw"

def type : ValueType → String
  | .numeric .float => "Float"
  | .numeric .vec2 => "Vec2"
  | .numeric .vec3 => "Vec3"
  | .numeric .vec4 => "Vec4"
  | .texture => "Texture"

def chainId (id : ChainId) : String :=
  "ChainId(" ++ toString id ++ ")"

def texture (name : String) : String :=
  "Texture(TextureRef(" ++ Text.quote name ++ "))"

def signal : String :=
  "Callback(..)"

def getter : Option Swizzle → String
  | none => "None"
  | some s => "Some(Swizzle(" ++ Text.quote s.text ++ "))"

mutual

def binding : Binding → String
  | .literal value => "Literal(" ++ value.describe ++ ")"
  | .signal _ => signal
  | .texture name => texture name
  | .chain c => "Chain(" ++ chain c ++ ")"

def chain : Chain → String
  | ⟨id, _, ns, g⟩ =>
      record "Chain"
        ["id: " ++ chainId id, "nodes: " ++ list (nodes ns), "getter: " ++ getter g, ".."]

def nodes : List Node → List String
  | [] => []
  | ⟨name, c, bs, id⟩ :: rest =>
      record "ChainNode"
        ["name: " ++ Text.quote name, "category: " ++ category c,
          "bindings: " ++ list (bindings bs), "chain_id: " ++ chainId id] :: nodes rest

def bindings : List Binding → List String
  | [] => []
  | b :: rest => binding b :: bindings rest

end

def uniform (u : Uniform) : String :=
  let value := match u.value with
    | .signal _ => signal
    | .texture name => texture name
  record "Parameter" ["name: " ++ Text.quote u.name, "ty: " ++ type u.type, "value: " ++ value]

def uniforms (us : List Uniform) : String :=
  list (us.map uniform)

end Diagnostic

end ShaderChain
