import ShaderChain.Json.Record

/-! The declarative form of a transform, as documents give it. -/

namespace ShaderChain

/-- A GLSL text, in one piece or by its lines. -/
inductive Source where
  | text (s : String)
  | lines (ls : List String)
deriving DecidableEq

namespace Source

def toText : Source → String
  | .text s => s
  | .lines ls => "\n".intercalate ls

def ofJson? : Json → Option Source
  | .string s => some (.text s)
  | .array items => (items.mapM Json.text?).map .lines
  | _ => none

def toJson : Source → Json
  | .text s => .string s
  | .lines ls => .array (ls.map .string)

end Source

/-- A body and the ones that take its place in GLSL ES 3.00 and in vertex programs. -/
structure Variants (α : Type) where
  main : α
  es300 : Option α := none
  vertex : Option α := none
deriving DecidableEq

def Variants.map (f : α → β) (v : Variants α) : Variants β :=
  ⟨f v.main, v.es300.map f, v.vertex.map f⟩

/-- A parameter by the name of its type. -/
structure ParamDescriptor where
  name : String
  type : String := "float"
  default : Option Binary64 := none
deriving DecidableEq

namespace ParamDescriptor

def ofJson? (json : Json) : Option ParamDescriptor := do
  match ← json.record? ["name", "type", "default"] with
  | [name, type, default] =>
      return {
        name := ← Json.required? Json.text? name
        type := ← Json.withDefault? "float" Json.text? type
        default := ← Json.optional? Json.number? default }
  | _ => none

def toJson (p : ParamDescriptor) : Json :=
  .object [
    ("name", .string p.name),
    ("type", .string p.type),
    ("default", match p.default with
      | some x => .ofBinary64 x
      | none => .null)]

end ParamDescriptor

/-- A transform by the names of its category and of its parameters' types. The GLSL function has
the symbol, or else the name, of the transform. -/
structure Descriptor where
  name : String
  category : String
  params : List ParamDescriptor := []
  sources : Variants Source
  symbol : Option String := none
deriving DecidableEq

namespace Descriptor

def fieldNames : List String :=
  ["name", "type", "inputs", "glsl", "glsl300", "vertexGlsl", "glslName"]

def ofJson? (json : Json) : Option Descriptor := do
  match ← json.record? fieldNames with
  | [name, category, params, main, es300, vertex, symbol] =>
      return {
        name := ← Json.required? Json.text? name
        category := ← Json.required? Json.text? category
        params := ← Json.withDefault? [] (Json.list? ParamDescriptor.ofJson?) params
        sources := {
          main := ← Json.required? Source.ofJson? main
          es300 := ← Json.optional? Source.ofJson? es300
          vertex := ← Json.optional? Source.ofJson? vertex }
        symbol := ← Json.optional? Json.text? symbol }
  | _ => none

def toJson (d : Descriptor) : Json :=
  .object ([
    ("name", .string d.name),
    ("type", .string d.category),
    ("inputs", .array (d.params.map ParamDescriptor.toJson)),
    ("glsl", d.sources.main.toJson)] ++
    Json.optionalMember "glsl300" (d.sources.es300.map Source.toJson) ++
    Json.optionalMember "vertexGlsl" (d.sources.vertex.map Source.toJson) ++
    Json.optionalMember "glslName" (d.symbol.map .string))

end Descriptor

end ShaderChain
