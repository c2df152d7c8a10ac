import ShaderChain.Transform.Descriptor

/-! How the built-in transforms are written down. -/

namespace ShaderChain

/-- A float with a default. -/
def ParamDescriptor.number (name : String) (default : Binary64) : ParamDescriptor :=
  ⟨name, "float", some default⟩

def ParamDescriptor.sampler (name : String) : ParamDescriptor :=
  ⟨name, "sampler2D", none⟩

namespace Builtin

def entry (category name : String) (params : List ParamDescriptor) (lines : List String)
    (es300 : Option (List String) := none) : Descriptor where
  name
  category
  params
  sources := { main := .lines lines, es300 := es300.map .lines }

end Builtin

end ShaderChain
