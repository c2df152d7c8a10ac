import ShaderChain.Builtin.Entry

/-! Changes of the coordinate. -/

namespace ShaderChain.Builtin

def coordinates : List Descriptor :=
  [entry "coord" "rotate"
    [.number "angle" 10.0, .number "speed" 0.0]
    ["vec2 xy = _st - vec2(0.5);",
     "float ang = angle + speed * time;",
     "xy = mat2(cos(ang), -sin(ang), sin(ang), cos(ang)) * xy;",
     "xy += 0.5;",
     "return xy;"],
   entry "coord" "scale"
    [.number "amount" 1.5, .number "xMult" 1.0, .number "yMult" 1.0, .number "offsetX" 0.5,
     .number "offsetY" 0.5]
    ["vec2 xy = _st - vec2(offsetX, offsetY);",
     "xy *= (1.0 / vec2(amount * xMult, amount * yMult));",
     "xy += vec2(offsetX, offsetY);",
     "return xy;"],
   entry "coord" "pixelate"
    [.number "pixelX" 20.0, .number "pixelY" 20.0]
    ["vec2 xy = vec2(pixelX, pixelY);",
     "return (floor(_st * xy) + 0.5) / xy;"],
   entry "coord" "repeat"
    [.number "repeatX" 3.0, .number "repeatY" 3.0, .number "offsetX" 0.0, .number "offsetY" 0.0]
    ["vec2 st = _st * vec2(repeatX, repeatY);",
     "st.x += step(1.0, mod(st.y, 2.0)) * offsetX;",
     "st.y += step(1.0, mod(st.x, 2.0)) * offsetY;",
     "return fract(st);"],
   entry "coord" "kaleid"
    [.number "nSides" 4.0]
    ["vec2 st = _st;",
     "st -= 0.5;",
     "float r = length(st);",
     "float a = atan(st.y, st.x);",
     "float pi = 2.0 * 3.1416;",
     "a = mod(a, pi / nSides);",
     "a = abs(a - pi / nSides / 2.0);",
     "return r * vec2(cos(a), sin(a));"],
   entry "coord" "scroll"
    [.number "scrollX" 0.5, .number "scrollY" 0.5, .number "speedX" 0.0, .number "speedY" 0.0]
    ["vec2 st = _st;",
     "st.x += scrollX + time * speedX;",
     "st.y += scrollY + time * speedY;",
     "return fract(st);"],
   entry "coord" "scrollX"
    [.number "scrollX" 0.5, .number "speed" 0.0]
    ["vec2 st = _st;",
     "st.x += scrollX + time * speed;",
     "return fract(st);"],
   entry "coord" "scrollY"
    [.number "scrollY" 0.5, .number "speed" 0.0]
    ["vec2 st = _st;",
     "st.y += scrollY + time * speed;",
     "return fract(st);"]]

end ShaderChain.Builtin
