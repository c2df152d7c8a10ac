import ShaderChain.Builtin.Color
import ShaderChain.Builtin.Combine
import ShaderChain.Builtin.Coordinate
import ShaderChain.Builtin.Displace
import ShaderChain.Builtin.Modulate
import ShaderChain.Builtin.Source
import ShaderChain.Transform.Registry

/-! The transforms that are there without a catalog. -/

namespace ShaderChain

namespace Builtin

def descriptors : List Descriptor :=
  sources ++ coordinates ++ colors ++ combines ++ modulations ++ displacements ++ verbatim

end Builtin

def Registry.builtin : Registry :=
  .ofDescriptors Builtin.descriptors

end ShaderChain
