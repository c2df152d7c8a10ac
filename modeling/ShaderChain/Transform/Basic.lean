import ShaderChain.Glsl.Options
import ShaderChain.Text.Layout
import ShaderChain.Transform.Category
import ShaderChain.Transform.Descriptor

/-! Transforms: GLSL functions with a category, parameters and complete texts. -/

namespace ShaderChain

/-- Whether a program works on fragments or on vertices. -/
inductive Stage where
  | fragment
  | vertex
deriving DecidableEq

/-- A numeric parameter has a default; a texture has to be bound. -/
inductive Param.Kind where
  | numeric (type : Numeric) (default : Binary64)
  | texture
deriving DecidableEq

structure Param where
  name : String
  kind : Param.Kind
deriving DecidableEq

def Param.Kind.type : Param.Kind → ValueType
  | .numeric type _ => .numeric type
  | .texture => .texture

def Param.Kind.default? : Param.Kind → Option Binary64
  | .numeric _ default => some default
  | .texture => none

def Param.type (p : Param) : ValueType :=
  p.kind.type

/-- A place for a binding in a call of a transform. -/
structure Slot where
  name : String
  type : ValueType
  default : Option Binary64
deriving DecidableEq

def Param.slot (p : Param) : Slot :=
  ⟨p.name, p.kind.type, p.kind.default?⟩

/-- The slot of the color that a transform with an operand mixes in. -/
def Slot.operand : Slot :=
  ⟨"color", .numeric .vec4, none⟩

structure Transform where
  name : String
  symbol : String
  category : Category
  params : List Param
  texts : Variants String
deriving DecidableEq

namespace Transform

def operand? (t : Transform) : Option Slot :=
  if t.category.hasOperand then some .operand else none

/-- What a call may bind, in order. -/
def slots (t : Transform) : List Slot :=
  t.operand?.toList ++ t.params.map Param.slot

/-- The declarations of the arguments, the fixed ones of the category first. -/
def arguments (category : Category) (params : List Param) : List String :=
  (category.signature.leading.map fun (type, name) => type.glsl ++ " " ++ name) ++
    params.map fun p => p.type.glsl ++ " " ++ p.name

/-- The first line of a function, up to its body. -/
def header (symbol : String) (category : Category) (params : List Param) : String :=
  category.signature.result.glsl ++ " " ++ symbol ++
    "(" ++ ", ".intercalate (arguments category params) ++ ")"

def signature (t : Transform) : String :=
  header t.symbol t.category t.params

end Transform

/-- The text for a stage and version. A vertex program prefers the text made for it. -/
def Variants.select (v : Variants α) (stage : Stage) (version : Version) : α :=
  let flat := match version with
    | .es100 => v.main
    | .es300 => v.es300.getD v.main
  match stage with
  | .fragment => flat
  | .vertex => v.vertex.getD flat

/-! Normalization checks a descriptor and completes its texts. -/

inductive RegistrationError where
  | type (name : String) (cause : TypeError)
  | invalidName (name symbol : String)
  | duplicateParameter (name param : String)
deriving DecidableEq

def RegistrationError.message : RegistrationError → String
  | .type name cause => s!"transform '{name}': {cause.message}"
  | .invalidName name symbol =>
      s!"transform '{name}': '{symbol}' is not a valid GLSL identifier"
  | .duplicateParameter name param => s!"transform '{name}': duplicate parameter '{param}'"

namespace Transform

/-- The complete definition of a function. A body that holds the header already is complete, and
so is every raw one; any other is put into braces behind the header. -/
def complete (category : Category) (header body : String) : String :=
  let trimmed := Text.trim body.toList
  let key := Text.spacingKey header.toList
  if category = .raw ∨ Text.occurs key (Text.spacingKey trimmed) then
    String.ofList trimmed ++ "\n"
  else
    header ++ " \x7b\n" ++ String.ofList (Text.indentLines [' ', ' '] trimmed) ++ "\n\x7d\n"

end Transform

namespace Descriptor

def checkName (d : Descriptor) (symbol : String) : Except RegistrationError Unit :=
  if Text.isIdentifier symbol.toList then .ok () else .error (.invalidName d.name symbol)

/-- A numeric parameter is zero by default. -/
def paramKind (p : ParamDescriptor) : ValueType → Param.Kind
  | .numeric type => .numeric type (p.default.getD 0.0)
  | .texture => .texture

/-- Checks the parameters in order. `taken` are the names before them. -/
def normalizeParams (d : Descriptor) (taken : List String) :
    List ParamDescriptor → Except RegistrationError (List Param)
  | [] => .ok []
  | p :: rest => do
      d.checkName p.name
      if p.name ∈ taken then throw (.duplicateParameter d.name p.name)
      let type ← (ValueType.parse p.type).mapError (.type d.name)
      let params ← d.normalizeParams (p.name :: taken) rest
      return ⟨p.name, paramKind p type⟩ :: params

def normalize (d : Descriptor) : Except RegistrationError Transform := do
  let symbol := d.symbol.getD d.name
  d.checkName symbol
  let category ← (Category.parse d.category).mapError (.type d.name)
  let taken := if category.hasOperand then [Slot.operand.name] else []
  let params ← d.normalizeParams taken d.params
  let header := Transform.header symbol category params
  return {
    name := d.name
    symbol
    category
    params
    texts := d.sources.map fun source => Transform.complete category header source.toText }

end Descriptor

end ShaderChain
