import ShaderChain.Builtin.Entry

/-! Displacements of vertices, and a function given by its whole text. -/

namespace ShaderChain.Builtin

def displacements : List Descriptor :=
  [entry "vert" "wave"
    [.number "amplitude" 0.05, .number "frequency" 10.0, .number "speed" 1.0]
    ["return vec4(0.0, 0.0, sin(_st.x * frequency + time * speed) * amplitude, 0.0);"],
   entry "vert" "ripple"
    [.number "amplitude" 0.05, .number "frequency" 20.0, .number "speed" 1.0]
    ["float d = distance(_st, vec2(0.5));",
     "return vec4(0.0, 0.0, sin(d * frequency - time * speed) * amplitude, 0.0);"],
   entry "vert" "displaceTexture"
    [.sampler "tex", .number "amount" 0.1]
    ["return vec4(0.0, 0.0, _luminance(texture2D(tex, _st).rgb) * amount, 0.0);"]]

def verbatim : List Descriptor :=
  [entry "raw" "checker"
    [.number "cells" 8.0]
    ["vec4 checker(vec2 _st, float cells) \x7b",
     "  vec2 cell = floor(_st * cells);",
     "  float c = mod(cell.x + cell.y, 2.0);",
     "  return vec4(vec3(c), 1.0);",
     "\x7d"]]

end ShaderChain.Builtin
