import ShaderChain.Text.Identifier

/-! Functions that transform bodies may call, and the ones that given texts need. -/

namespace ShaderChain

/-- A GLSL function with the lines of its definition. -/
structure Helper where
  name : String
  lines : List String

namespace Helper

def text (helper : Helper) : String :=
  String.join (helper.lines.map (· ++ "\n"))

def permute : Helper where
  name := "permute"
  lines := [
    "vec4 permute(vec4 x) \x7b",
    "  return mod(((x * 34.0) + 1.0) * x, 289.0);",
    "\x7d"]

def taylorInvSqrt : Helper where
  name := "taylorInvSqrt"
  lines := [
    "vec4 taylorInvSqrt(vec4 r) \x7b",
    "  return 1.79284291400159 - 0.85373472095314 * r;",
    "\x7d"]

def luminance : Helper where
  name := "_luminance"
  lines := [
    "float _luminance(vec3 rgb) \x7b",
    "  const vec3 W = vec3(0.2125, 0.7154, 0.0721);",
    "  return dot(rgb, W);",
    "\x7d"]

def rgbToHsv : Helper where
  name := "_rgbToHsv"
  lines := [
    "vec3 _rgbToHsv(vec3 c) \x7b",
    "  vec4 K = vec4(0.0, -1.0 / 3.0, 2.0 / 3.0, -1.0);",
    "  vec4 p = mix(vec4(c.bg, K.wz), vec4(c.gb, K.xy), step(c.b, c.g));",
    "  vec4 q = mix(vec4(p.xyw, c.r), vec4(c.r, p.yzx), step(p.x, c.r));",
    "  float d = q.x - min(q.w, q.y);",
    "  float e = 1.0e-10;",
    "  return vec3(abs(q.z + (q.w - q.y) / (6.0 * d + e)), d / (q.x + e), q.x);",
    "\x7d"]

def hsvToRgb : Helper where
  name := "_hsvToRgb"
  lines := [
    "vec3 _hsvToRgb(vec3 c) \x7b",
    "  vec4 K = vec4(1.0, 2.0 / 3.0, 1.0 / 3.0, 3.0);",
    "  vec3 p = abs(fract(c.xxx + K.xyz) * 6.0 - K.www);",
    "  return c.z * mix(K.xxx, clamp(p - K.xxx, 0.0, 1.0), c.y);",
    "\x7d"]

/-- Simplex noise in three dimensions. -/
def noise : Helper where
  name := "_noise"
  lines := [
    "float _noise(vec3 v) \x7b",
    "  const vec2 C = vec2(1.0 / 6.0, 1.0 / 3.0);",
    "  const vec4 D = vec4(0.0, 0.5, 1.0, 2.0);",
    "",
    "  vec3 i = floor(v + dot(v, C.yyy));",
    "  vec3 x0 = v - i + dot(i, C.xxx);",
    "",
    "  vec3 g = step(x0.yzx, x0.xyz);",
    "  vec3 l = 1.0 - g;",
    "  vec3 i1 = min(g.xyz, l.zxy);",
    "  vec3 i2 = max(g.xyz, l.zxy);",
    "",
    "  vec3 x1 = x0 - i1 + 1.0 * C.xxx;",
    "  vec3 x2 = x0 - i2 + 2.0 * C.xxx;",
    "  vec3 x3 = x0 - 1.0 + 3.0 * C.xxx;",
    "",
    "  i = mod(i, 289.0);",
    "  vec4 p = permute(permute(permute(",
    "      i.z + vec4(0.0, i1.z, i2.z, 1.0))",
    "    + i.y + vec4(0.0, i1.y, i2.y, 1.0))",
    "    + i.x + vec4(0.0, i1.x, i2.x, 1.0));",
    "",
    "  float n_ = 1.0 / 7.0;",
    "  vec3 ns = n_ * D.wyz - D.xzx;",
    "",
    "  vec4 j = p - 49.0 * floor(p * ns.z * ns.z);",
    "  vec4 x_ = floor(j * ns.z);",
    "  vec4 y_ = floor(j - 7.0 * x_);",
    "",
    "  vec4 x = x_ * ns.x + ns.yyyy;",
    "  vec4 y = y_ * ns.x + ns.yyyy;",
    "  vec4 h = 1.0 - abs(x) - abs(y);",
    "",
    "  vec4 b0 = vec4(x.xy, y.xy);",
    "  vec4 b1 = vec4(x.zw, y.zw);",
    "  vec4 s0 = floor(b0) * 2.0 + 1.0;",
    "  vec4 s1 = floor(b1) * 2.0 + 1.0;",
    "  vec4 sh = -step(h, vec4(0.0));",
    "",
    "  vec4 a0 = b0.xzyw + s0.xzyw * sh.xxyy;",
    "  vec4 a1 = b1.xzyw + s1.xzyw * sh.zzww;",
    "",
    "  vec3 p0 = vec3(a0.xy, h.x);",
    "  vec3 p1 = vec3(a0.zw, h.y);",
    "  vec3 p2 = vec3(a1.xy, h.z);",
    "  vec3 p3 = vec3(a1.zw, h.w);",
    "",
    "  vec4 norm = taylorInvSqrt(vec4(dot(p0, p0), dot(p1, p1), dot(p2, p2), dot(p3, p3)));",
    "  p0 *= norm.x;",
    "  p1 *= norm.y;",
    "  p2 *= norm.z;",
    "  p3 *= norm.w;",
    "",
    "  vec4 m = max(0.6 - vec4(dot(x0, x0), dot(x1, x1), dot(x2, x2), dot(x3, x3)), 0.0);",
    "  m = m * m;",
    "  return 42.0 * dot(m * m, vec4(dot(p0, x0), dot(p1, x1), dot(p2, x2), dot(p3, x3)));",
    "\x7d"]

/-- All helpers. Each calls only helpers before it. -/
def table : List Helper :=
  [permute, taylorInvSqrt, luminance, rgbToHsv, hsvToRgb, noise]

/-- The helpers of the list that the texts need, in the order of the list: those that a text
mentions or that a needed one after them mentions. -/
def neededIn (texts : List String) : List Helper → List Helper
  | [] => []
  | helper :: rest =>
      let later := neededIn texts rest
      if texts.any (Text.mentions · helper.name) ||
          later.any (Text.mentions ·.text helper.name) then
        helper :: later
      else later

def needed (texts : List String) : List Helper :=
  neededIn texts table

end Helper

end ShaderChain
