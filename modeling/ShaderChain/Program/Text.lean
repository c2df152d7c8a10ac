import ShaderChain.Compile.Compiled
import ShaderChain.Glsl.Helper

/-! The texts of fragment and vertex programs. -/

namespace ShaderChain

/-- What a program starts with. GLSL ES 3.00 renames the function that reads textures. -/
def Options.header (options : Options) : String :=
  let precision := "precision " ++ options.precision.keyword ++ " float;\n"
  match options.version with
  | .es100 => precision
  | .es300 => "#version 300 es\n" ++ precision ++ "#define texture2D texture\n"

/-- The first transform of each symbol. `taken` are the symbols before. -/
def Transform.firstOfSymbols (taken : List String) : List Transform → List Transform
  | [] => []
  | t :: rest =>
      if t.symbol ∈ taken then firstOfSymbols taken rest
      else t :: firstOfSymbols (t.symbol :: taken) rest

namespace Compiled

def uniformBlock (c : Compiled) : String :=
  String.join (c.uniforms.map fun u => u.declaration ++ "\n")

/-- The definitions of the functions in a program, one for each symbol. -/
def functionTexts (c : Compiled) (stage : Stage) (version : Version) : List String :=
  (Transform.firstOfSymbols [] c.functions).map fun t => t.texts.select stage version

/-- The helpers that the functions need, and the functions. -/
def functionBlock (c : Compiled) (stage : Stage) (version : Version) : String :=
  let texts := c.functionTexts stage version
  String.join (((Helper.needed texts).map Helper.text ++ texts).map (· ++ "\n"))

/-- The body as the value of four components that a program needs. -/
def padded (c : Compiled) (fill : Binary64) : String :=
  (c.body.coerce c.type (.numeric .vec4) fill).render

/-- Uniforms of every program. -/
def frameUniforms : String :=
  "uniform float time;\nuniform vec2 resolution;\n"

/-- The fragment program, which is opaque where the body says nothing of alpha. -/
def fragmentText (c : Compiled) (options : Options) : String :=
  let (varyings, output) := match options.version with
    | .es100 => ("varying vec2 vUv;\n", "gl_FragColor")
    | .es300 => ("in vec2 vUv;\nout vec4 fragColor;\n", "fragColor")
  options.header ++ c.uniformBlock ++ frameUniforms ++ varyings ++ "\n" ++
    c.functionBlock .fragment options.version ++
    "void main () \x7b\n  vec2 st = vUv;\n  " ++ output ++ " = " ++ c.padded 1.0 ++ ";\n\x7d\n"

def vertexInterface : Version → String
  | .es100 =>
      "attribute vec3 position;\nattribute vec2 uv;\n"
  | .es300 =>
      "in vec3 position;\nin vec2 uv;\n"

def vertexVaryings : Version → String
  | .es100 => "varying vec2 vUv;\n"
  | .es300 => "out vec2 vUv;\n"

def matrices : String :=
  "uniform mat4 modelViewMatrix;\nuniform mat4 projectionMatrix;\n"

/-- The vertex program. It moves vertices by the body if the chain starts with a displacement,
and leaves them alone otherwise. -/
def vertexText (c : Compiled) (options : Options) : String :=
  let version := options.version
  let opening := options.header ++ vertexInterface version ++ matrices
  if c.vertexStage then
    opening ++ c.uniformBlock ++ frameUniforms ++ vertexVaryings version ++ "\n" ++
      c.functionBlock .vertex version ++
      "void main () \x7b\n  vUv = uv;\n  vec2 st = uv;\n  vec4 displacement = " ++
      c.padded 0.0 ++ ";\n  gl_Position = projectionMatrix * modelViewMatrix * " ++
      "vec4(position + displacement.xyz, 1.0);\n\x7d\n"
  else
    opening ++ vertexVaryings version ++ "\nvoid main () \x7b\n  vUv = uv;\n" ++
      "  gl_Position = projectionMatrix * modelViewMatrix * vec4(position, 1.0);\n\x7d\n"

end Compiled

end ShaderChain
