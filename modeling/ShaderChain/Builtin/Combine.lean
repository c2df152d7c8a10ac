import ShaderChain.Builtin.Entry

/-! Mixtures of two colors. -/

namespace ShaderChain.Builtin

def combines : List Descriptor :=
  [entry "combine" "add"
    [.number "amount" 1.0]
    ["return (_c0 + _c1) * amount + _c0 * (1.0 - amount);"],
   entry "combine" "sub"
    [.number "amount" 1.0]
    ["return (_c0 - _c1) * amount + _c0 * (1.0 - amount);"],
   entry "combine" "layer"
    []
    ["return vec4(mix(_c0.rgb, _c1.rgb, _c1.a), clamp(_c0.a + _c1.a, 0.0, 1.0));"],
   entry "combine" "blend"
    [.number "amount" 0.5]
    ["return _c0 * (1.0 - amount) + _c1 * amount;"],
   entry "combine" "mult"
    [.number "amount" 1.0]
    ["return _c0 * (1.0 - amount) + (_c0 * _c1) * amount;"],
   entry "combine" "diff"
    []
    ["return vec4(abs(_c0.rgb - _c1.rgb), max(_c0.a, _c1.a));"],
   entry "combine" "mask"
    []
    ["float a = _luminance(_c1.rgb);",
     "return vec4(_c0.rgb * a, a * _c0.a);"]]

end ShaderChain.Builtin
