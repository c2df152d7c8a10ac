import ShaderChain.Json.Parser
import ShaderChain.Transform.Descriptor

/-! Catalogs: documents that hold descriptors. -/

namespace ShaderChain.Catalog

/-- A record of a version and the descriptors. -/
def versioned? (json : Json) : Option (List Descriptor) := do
  match ← json.record? ["version", "transforms"] with
  | [version, transforms] =>
      let _ ← Json.required? Json.text? version
      Json.withDefault? [] (Json.list? Descriptor.ofJson?) transforms
  | _ => none

/-- An array of descriptors. -/
def bare? : Json → Option (List Descriptor) :=
  Json.list? Descriptor.ofJson?

def ofJson? (json : Json) : Option (List Descriptor) :=
  versioned? json <|> bare? json

/-- Reads a catalog. All of the document has to be readable, also what is ignored. -/
def parse? (text : String) : Option (List Descriptor) := do
  let json ← Json.parse? text
  guard (json.fits Json.maxLevels)
  ofJson? json

end ShaderChain.Catalog
