import ShaderChain.Builtin.Entry

/-! Sources: patterns that give a color for a coordinate. -/

namespace ShaderChain.Builtin

def sources : List Descriptor :=
  [entry "src" "osc"
    [.number "frequency" 60.0, .number "sync" 0.1, .number "offset" 0.0]
    ["vec2 st = _st;",
     "float r = sin((st.x - offset / frequency + time * sync) * frequency) * 0.5 + 0.5;",
     "float g = sin((st.x + time * sync) * frequency) * 0.5 + 0.5;",
     "float b = sin((st.x + offset / frequency + time * sync) * frequency) * 0.5 + 0.5;",
     "return vec4(r, g, b, 1.0);"],
   entry "src" "noise"
    [.number "scale" 10.0, .number "offset" 0.1]
    ["return vec4(vec3(_noise(vec3(_st * scale, offset * time))), 1.0);"],
   entry "src" "voronoi"
    [.number "scale" 5.0, .number "speed" 0.3, .number "blending" 0.3]
    ["vec3 col = vec3(0.0);",
     "vec2 st = _st * scale;",
     "vec2 i_st = floor(st);",
     "vec2 f_st = fract(st);",
     "float m_dist = 10.0;",
     "vec2 m_point;",
     "for (int j = -1; j <= 1; j++) \x7b",
     "  for (int i = -1; i <= 1; i++) \x7b",
     "    vec2 neighbor = vec2(float(i), float(j));",
     "    vec2 p = i_st + neighbor;",
     "    vec2 point = fract(sin(vec2(dot(p, vec2(127.1, 311.7)), dot(p, vec2(269.5, 183.3)))) * 43758.5453);",
     "    point = 0.5 + 0.5 * sin(time * speed + 6.2831 * point);",
     "    vec2 diff = neighbor + point - f_st;",
     "    float dist = length(diff);",
     "    if (dist < m_dist) \x7b",
     "      m_dist = dist;",
     "      m_point = point;",
     "    \x7d",
     "  \x7d",
     "\x7d",
     "col += dot(m_point, vec2(0.3, 0.6));",
     "col *= 1.0 - blending * m_dist;",
     "return vec4(col, 1.0);"],
   entry "src" "shape"
    [.number "sides" 3.0, .number "radius" 0.3, .number "smoothing" 0.01]
    ["vec2 st = _st * 2.0 - 1.0;",
     "float a = atan(st.x, st.y) + 3.1416;",
     "float r = (2.0 * 3.1416) / sides;",
     "float d = cos(floor(0.5 + a / r) * r - a) * length(st);",
     "return vec4(vec3(1.0 - smoothstep(radius, radius + smoothing + 0.0000001, d)), 1.0);"],
   entry "src" "gradient"
    [.number "speed" 0.0]
    ["return vec4(_st, sin(time * speed), 1.0);"],
   entry "src" "solid"
    [.number "r" 0.0, .number "g" 0.0, .number "b" 0.0, .number "a" 1.0]
    ["return vec4(r, g, b, a);"],
   entry "src" "src"
    [.sampler "tex"]
    ["return texture2D(tex, fract(_st));"]
    (some ["return texture(tex, fract(_st));"])]

end ShaderChain.Builtin
