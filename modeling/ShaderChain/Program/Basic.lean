import ShaderChain.Chain.Build
import ShaderChain.Program.Text

/-! Programs: both stages of a chain with the uniforms to bind. -/

namespace ShaderChain

structure Program where
  fragment : String
  vertex : String
  uniforms : List Uniform
  /-- A number that tells programs apart. It is no part of their texts. -/
  group : Nat

/-- A name for the uniforms of a program. -/
def Program.groupName (p : Program) : String :=
  "chain-group-" ++ toString p.group

/-- The first uniform of each name. `taken` are the names before. -/
def Uniform.firstOfNames (taken : List String) : List Uniform → List Uniform
  | [] => []
  | u :: rest =>
      if u.name ∈ taken then firstOfNames taken rest
      else u :: firstOfNames (u.name :: taken) rest

def Fresh.group : Fresh ε Nat :=
  modifyGet fun counters => (counters.group, { counters with group := counters.group + 1 })

namespace Program

/-- The uniforms of both stages. The vertex stage has some only if it moves vertices. -/
def mergeUniforms (fragment vertex : Compiled) : List Uniform :=
  Uniform.firstOfNames []
    (fragment.uniforms ++ if vertex.vertexStage then vertex.uniforms else [])

/-- Compiles a chain for both stages. Only a program that compiles takes a group. -/
def build (registry : Registry) (c : Chain) (options : Options) : Fresh CompileError Program := do
  let fragment ← c.compile registry (.numeric .vec4)
  let vertex ← c.compileVertex registry
  return {
    fragment := fragment.fragmentText options
    vertex := vertex.vertexText options
    uniforms := mergeUniforms fragment vertex
    group := ← Fresh.group }

end Program

end ShaderChain
