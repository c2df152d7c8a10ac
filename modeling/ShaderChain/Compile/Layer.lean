import ShaderChain.Compile.Resources

/-! Layers: the nodes of a chain with their transforms looked up, their arguments checked and
their signals and textures turned into uniforms. -/

namespace ShaderChain

inductive CompileError where
  | unknownOperation (name : String) (position : Nat) (chain : ChainId)
  | invalidPosition (name : String) (category : Category) (predecessor : String)
      (position : Nat)
  | typeMismatch (name : String) (position : Nat) (param : String) (expected : ValueType)
      (found : String)
  | missingArgument (name : String) (position : Nat) (param : String)
  | tooManyArguments (name : String) (position expected got : Nat)
deriving DecidableEq

def CompileError.message : CompileError → String
  | .unknownOperation name position chain =>
      s!"unknown transform '{name}' at position {position} of chain {chain.text}"
  | .invalidPosition name category predecessor position =>
      s!"'{name}' ({category.name}) can only start a chain; it cannot follow " ++
        s!"'{predecessor}' at position {position}"
  | .typeMismatch name position param expected found =>
      s!"'{name}' at position {position}: argument '{param}' expects {expected.glsl}, " ++
        s!"got {found}"
  | .missingArgument name position param =>
      s!"'{name}' at position {position}: missing argument '{param}'"
  | .tooManyArguments name position expected got =>
      s!"'{name}' at position {position}: takes at most {expected} argument(s), got {got}"

/-- A transform with what it is applied to. The operand is there if the category has one, and
the other arguments are as many as the parameters. -/
structure LayerOf (ι : Type) where
  transform : Transform
  operand : Option ι
  args : List ι

/-- What an argument contributes to the expression. -/
inductive Input where
  | literal (value : Binary64)
  | uniform (name : String)
  | chain (layers : List (LayerOf Input)) (getter : Option Swizzle)

abbrev Layer :=
  LayerOf Input

/-- Computations that collect resources. -/
abbrev Resolve :=
  StateT Resources (Except CompileError)

/-- Where a node stands: the indices that lead to it from the outermost chain. -/
structure Site where
  name : String
  position : Nat
  path : List Nat

namespace Site

def mismatch (s : Site) (slot : Slot) (b : Binding) : CompileError :=
  .typeMismatch s.name s.position slot.name slot.type b.kind

def missing (s : Site) (slot : Slot) : CompileError :=
  .missingArgument s.name s.position slot.name

/-- The name of the uniform for an argument of the node. -/
def uniformName (s : Site) (arg : Nat) : String :=
  "u" ++ "_".intercalate ((s.path ++ [arg]).map toString)

end Site

namespace Resolve

def hoist (s : Site) (arg : Nat) (type : ValueType) (value : Uniform.Value) : Resolve Input := do
  let name := s.uniformName arg
  modify (·.addUniform ⟨name, type, value⟩)
  return .uniform name

/-- A parameter that is not bound takes its default. -/
def unbound (s : Site) (p : Param) : Resolve Input :=
  match p.kind with
  | .numeric _ default => return .literal default
  | .texture => throw (s.missing p.slot)

def lookup (registry : Registry) (position : Nat) (node : Node) : Except CompileError Transform :=
  match registry.find? node.name with
  | some t => .ok t
  | none => .error (.unknownOperation node.name position node.chain)

/-- A transform that can only start a chain has to stand first, and a node has no more bindings
than its transform has slots. -/
def checkNode (t : Transform) (predecessor : String) (position : Nat) (node : Node) :
    Except CompileError Unit :=
  if 0 < position ∧ t.category.isRootOnly then
    .error (.invalidPosition node.name t.category predecessor position)
  else if t.slots.length < node.bindings.length then
    .error (.tooManyArguments node.name position t.slots.length node.bindings.length)
  else .ok ()

/-- Vertex programs leave out the mixing of colors. -/
def keeps : Stage → Category → Bool
  | .vertex, .combine => false
  | _, _ => true

/-! A chain is resolved node by node, and each node's operand before its other arguments. The
transform of a node is noted before those of the chains it is bound to. -/

mutual

def nodes (registry : Registry) (stage : Stage) (path : List Nat) (predecessor : String)
    (position : Nat) : List Node → Resolve (List Layer)
  | [] => return []
  | node :: rest => do
      let t ← lookup registry position node
      if keeps stage t.category then
        checkNode t predecessor position node
        modify (·.addFunction t)
        let layer ← Resolve.layer registry t ⟨t.name, position, path ++ [position]⟩ node
        return layer :: (← nodes registry stage path node.name (position + 1) rest)
      else nodes registry stage path predecessor (position + 1) rest

def layer (registry : Registry) (t : Transform) (s : Site) : Node → Resolve Layer
  | ⟨_, _, [], _⟩ => do
      if t.category.hasOperand then throw (s.missing .operand)
      return ⟨t, none, ← t.params.mapM (unbound s)⟩
  | ⟨_, _, b :: rest, _⟩ => do
      if t.category.hasOperand then
        let operand ← Resolve.operand registry s b
        return ⟨t, some operand, ← arguments registry s 1 t.params rest⟩
      else return ⟨t, none, ← arguments registry s 0 t.params (b :: rest)⟩

def operand (registry : Registry) (s : Site) : Binding → Resolve Input
  | .literal value => return .literal value
  | .signal signal => hoist s 0 (.numeric .float) (.signal signal)
  | .texture name => throw (s.mismatch .operand (.texture name))
  | .chain c => nested registry (s.path ++ [0]) c

def arguments (registry : Registry) (s : Site) (arg : Nat) (params : List Param) :
    List Binding → Resolve (List Input)
  | [] => params.mapM (unbound s)
  | b :: rest =>
      match params with
      | [] => return []
      | p :: params => do
          let input ← argument registry s arg p b
          return input :: (← arguments registry s (arg + 1) params rest)

def argument (registry : Registry) (s : Site) (arg : Nat) (p : Param) : Binding → Resolve Input
  | .literal value =>
      match p.kind with
      | .numeric .. => return .literal value
      | .texture => throw (s.mismatch p.slot (.literal value))
  | .signal signal =>
      match p.kind with
      | .numeric .. => hoist s arg (.numeric .float) (.signal signal)
      | .texture => throw (s.mismatch p.slot (.signal signal))
  | .texture name =>
      match p.kind with
      | .numeric .. => throw (s.mismatch p.slot (.texture name))
      | .texture => hoist s arg .texture (.texture name)
  | .chain c =>
      match p.kind with
      | .numeric .. => nested registry (s.path ++ [arg]) c
      | .texture => throw (s.mismatch p.slot (.chain c))

def nested (registry : Registry) (path : List Nat) : Chain → Resolve Input
  | ⟨_, _, ns, getter⟩ => return .chain (← nodes registry .fragment path "" 0 ns) getter

end

end Resolve

end ShaderChain
