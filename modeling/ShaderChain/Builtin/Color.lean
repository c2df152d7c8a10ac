import ShaderChain.Builtin.Entry

/-! Changes of the color. -/

namespace ShaderChain.Builtin

def colors : List Descriptor :=
  [entry "color" "posterize"
    [.number "bins" 3.0, .number "gamma" 0.6]
    ["vec4 c2 = pow(_c0, vec4(gamma));",
     "c2 *= vec4(bins);",
     "c2 = floor(c2);",
     "c2 /= vec4(bins);",
     "c2 = pow(c2, vec4(1.0 / gamma));",
     "return vec4(c2.xyz, _c0.a);"],
   entry "color" "shift"
    [.number "r" 0.5, .number "g" 0.0, .number "b" 0.0, .number "a" 0.0]
    ["vec4 c2 = vec4(_c0);",
     "c2.r = fract(c2.r + r);",
     "c2.g = fract(c2.g + g);",
     "c2.b = fract(c2.b + b);",
     "c2.a = fract(c2.a + a);",
     "return vec4(c2.rgba);"],
   entry "color" "invert"
    [.number "amount" 1.0]
    ["return vec4((1.0 - _c0.rgb) * amount + _c0.rgb * (1.0 - amount), _c0.a);"],
   entry "color" "contrast"
    [.number "amount" 1.6]
    ["vec4 c = (_c0 - vec4(0.5)) * vec4(amount) + vec4(0.5);",
     "return vec4(c.rgb, _c0.a);"],
   entry "color" "brightness"
    [.number "amount" 0.4]
    ["return vec4(_c0.rgb + vec3(amount), _c0.a);"],
   entry "color" "luma"
    [.number "threshold" 0.5, .number "tolerance" 0.1]
    ["float a = smoothstep(threshold - (tolerance + 0.0000001), threshold + (tolerance + 0.0000001), _luminance(_c0.rgb));",
     "return vec4(_c0.rgb * a, a);"],
   entry "color" "thresh"
    [.number "threshold" 0.5, .number "tolerance" 0.04]
    ["return vec4(vec3(smoothstep(threshold - (tolerance + 0.0000001), threshold + (tolerance + 0.0000001), _luminance(_c0.rgb))), _c0.a);"],
   entry "color" "color"
    [.number "r" 1.0, .number "g" 1.0, .number "b" 1.0, .number "a" 1.0]
    ["vec4 c = vec4(r, g, b, a);",
     "vec4 pos = step(0.0, c);",
     "return vec4(mix((1.0 - _c0) * abs(c), c * _c0, pos));"],
   entry "color" "saturate"
    [.number "amount" 2.0]
    ["const vec3 W = vec3(0.2125, 0.7154, 0.0721);",
     "vec3 intensity = vec3(dot(_c0.rgb, W));",
     "return vec4(mix(intensity, _c0.rgb, amount), _c0.a);"],
   entry "color" "hue"
    [.number "amount" 0.4]
    ["vec3 c = _rgbToHsv(_c0.rgb);",
     "c.r += amount;",
     "return vec4(_hsvToRgb(c), _c0.a);"],
   entry "color" "colorama"
    [.number "amount" 0.005]
    ["vec3 c = _rgbToHsv(_c0.rgb);",
     "c += vec3(amount);",
     "c = _hsvToRgb(c);",
     "c = fract(c);",
     "return vec4(c, _c0.a);"],
   entry "color" "r"
    [.number "scale" 1.0, .number "offset" 0.0]
    ["return vec4(_c0.r * scale + offset);"],
   entry "color" "g"
    [.number "scale" 1.0, .number "offset" 0.0]
    ["return vec4(_c0.g * scale + offset);"],
   entry "color" "b"
    [.number "scale" 1.0, .number "offset" 0.0]
    ["return vec4(_c0.b * scale + offset);"],
   entry "color" "a"
    [.number "scale" 1.0, .number "offset" 0.0]
    ["return vec4(_c0.a * scale + offset);"]]

end ShaderChain.Builtin
