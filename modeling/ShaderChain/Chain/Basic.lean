import ShaderChain.Glsl.Swizzle
import ShaderChain.Transform.Registry

/-! Chains of transforms. The arguments of a transform may be chains themselves. -/

namespace ShaderChain

/-- A number that may change from frame to frame. The caller keeps the live ones and knows them
by an index. -/
inductive Signal where
  | constant (value : Binary64)
  | live (index : Nat)
deriving DecidableEq

def Signal.sample [Monad m] (live : Nat → m Binary64) : Signal → m Binary64
  | .constant value => pure value
  | .live index => live index

/-- The number of a chain, unbounded like the counter that it comes from. -/
abbrev ChainId :=
  Nat

def ChainId.text (id : ChainId) : String :=
  "#" ++ toString id

/-- An applied transform. The category is the one at the time of construction. -/
structure NodeOf (β : Type) where
  name : String
  category : Category
  bindings : List β
  chain : ChainId

/-- Applied transforms in order. Further ones are looked up in the chain's own registry. The
getter selects components where the chain is an argument. -/
structure ChainOf (β : Type) where
  id : ChainId
  registry : Registry
  nodes : List (NodeOf β)
  getter : Option Swizzle

/-- An argument of a transform. -/
inductive Binding where
  /-- A number in the text of the expression. -/
  | literal (value : Binary64)
  /-- A uniform of type `float`. -/
  | signal (signal : Signal)
  /-- A uniform of type `sampler2D`, by the name of its texture. -/
  | texture (name : String)
  | chain (chain : ChainOf Binding)

abbrev Node :=
  NodeOf Binding

abbrev Chain :=
  ChainOf Binding

def Binding.kind : Binding → String
  | .literal _ => "literal"
  | .signal _ => "callback"
  | .texture _ => "texture"
  | .chain _ => "chain"

end ShaderChain
