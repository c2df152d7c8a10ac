import ShaderChain.Chain.Basic

/-! What a compiled expression refers to: uniforms and transforms, each by its name. -/

namespace ShaderChain

/-- What the caller binds a uniform to. -/
inductive Uniform.Value where
  | signal (signal : Signal)
  | texture (name : String)
deriving DecidableEq

structure Uniform where
  name : String
  type : ValueType
  value : Uniform.Value
deriving DecidableEq

namespace Uniform

def declaration (u : Uniform) : String :=
  "uniform " ++ u.type.glsl ++ " " ++ u.name ++ ";"

/-- The present value, unless the uniform is a texture. -/
def sample [Monad m] (live : Nat → m Binary64) (u : Uniform) : m (Option Binary64) :=
  match u.value with
  | .signal signal => some <$> signal.sample live
  | .texture _ => pure none

def texture? (u : Uniform) : Option String :=
  match u.value with
  | .signal _ => none
  | .texture name => some name

end Uniform

/-- Uniforms and transforms in the order of their discovery, no name twice. -/
structure Resources where
  uniforms : List Uniform := []
  functions : List Transform := []

namespace Resources

/-! An addition under a name that is there already changes nothing. -/

def addUniform (r : Resources) (u : Uniform) : Resources :=
  if r.uniforms.any (·.name == u.name) then r else { r with uniforms := r.uniforms ++ [u] }

def addFunction (r : Resources) (t : Transform) : Resources :=
  if r.functions.any (·.name == t.name) then r else { r with functions := r.functions ++ [t] }

def uniformIndex? (r : Resources) (name : String) : Option Nat :=
  r.uniforms.findIdx? (·.name == name)

def functionIndex? (r : Resources) (name : String) : Option Nat :=
  r.functions.findIdx? (·.name == name)

end Resources

end ShaderChain
