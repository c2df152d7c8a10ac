import ShaderChain.Builtin.Entry

/-! Changes of the coordinate by a color. -/

namespace ShaderChain.Builtin

def modulations : List Descriptor :=
  [entry "combineCoord" "modulate"
    [.number "amount" 0.1]
    ["return _st + _c0.xy * amount;"],
   entry "combineCoord" "modulateScale"
    [.number "multiple" 1.0, .number "offset" 1.0]
    ["vec2 xy = _st - vec2(0.5);",
     "xy *= (1.0 / vec2(offset + multiple * _c0.r, offset + multiple * _c0.g));",
     "xy += vec2(0.5);",
     "return xy;"],
   entry "combineCoord" "modulatePixelate"
    [.number "multiple" 10.0, .number "offset" 3.0]
    ["vec2 xy = vec2(offset + _c0.x * multiple, offset + _c0.y * multiple);",
     "return (floor(_st * xy) + 0.5) / xy;"],
   entry "combineCoord" "modulateRotate"
    [.number "multiple" 1.0, .number "offset" 0.0]
    ["vec2 xy = _st - vec2(0.5);",
     "float angle = offset + _c0.x * multiple;",
     "xy = mat2(cos(angle), -sin(angle), sin(angle), cos(angle)) * xy;",
     "xy += 0.5;",
     "return xy;"],
   entry "combineCoord" "modulateRepeat"
    [.number "repeatX" 3.0, .number "repeatY" 3.0, .number "offsetX" 0.5, .number "offsetY" 0.5]
    ["vec2 st = _st * vec2(repeatX, repeatY);",
     "st.x += step(1.0, mod(st.y, 2.0)) + _c0.r * offsetX;",
     "st.y += step(1.0, mod(st.x, 2.0)) + _c0.g * offsetY;",
     "return fract(st);"],
   entry "combineCoord" "modulateKaleid"
    [.number "nSides" 4.0]
    ["vec2 st = _st - 0.5;",
     "float r = length(st);",
     "float a = atan(st.y, st.x);",
     "float pi = 2.0 * 3.1416;",
     "a = mod(a, pi / nSides);",
     "a = abs(a - pi / nSides / 2.0);",
     "return (_c0.r + r) * vec2(cos(a), sin(a));"],
   entry "combineCoord" "modulateScrollX"
    [.number "scrollX" 0.5, .number "speed" 0.0]
    ["vec2 st = _st;",
     "st.x += _c0.r * scrollX + time * speed;",
     "return fract(st);"],
   entry "combineCoord" "modulateHue"
    [.number "amount" 1.0]
    ["return _st + (vec2(_c0.g - _c0.r, _c0.b - _c0.g) * amount * 1.0 / resolution);"]]

end ShaderChain.Builtin
