import ShaderChain.Program.Basic
import ShaderChain.Script.Json

/-! Scripts: a chain with options and with transforms of its own. -/

namespace ShaderChain

structure Script where
  version : Option String := none
  options : Options := {}
  transforms : List Descriptor := []
  chain : Outline

namespace Script

def fieldNames : List String :=
  ["version", "options", "transforms", "chain"]

def ofJson? (json : Json) : Option Script := do
  match ← json.record? fieldNames with
  | [version, options, transforms, chain] =>
      return {
        version := ← Json.optional? Json.text? version
        options := ← Json.withDefault? {} Options.ofJson? options
        transforms := ← Json.withDefault? [] (Json.list? Descriptor.ofJson?) transforms
        chain := ← Json.required? Outline.ofJson? chain }
  | _ => none

def toJson (s : Script) : Json :=
  .object [
    ("version", match s.version with
      | some version => .string version
      | none => .null),
    ("options", s.options.toJson),
    ("transforms", .array (s.transforms.map Descriptor.toJson)),
    ("chain", s.chain.toJson)]

def argumentsFit (json : Json) : Bool :=
  match json.record? fieldNames with
  | some [_, _, _, some chain] => Outline.argumentsFit 1 chain
  | _ => true

def parse? (text : String) : Option Script := do
  let json ← Json.parse? text
  guard (argumentsFit json)
  ofJson? json

end Script

inductive ScriptError where
  | transforms (causes : List RegistrationError)
  | chain (cause : OutlineError)
  | compile (chain : ChainId) (cause : CompileError)
deriving DecidableEq

def ScriptError.message : ScriptError → String
  | .transforms causes =>
      "invalid script transforms:\n- " ++ "\n- ".intercalate (causes.map (·.message))
  | .chain cause => cause.message
  | .compile id cause => s!"failed to compile chain {id.text}: {cause.message}"

namespace Script

/-- The registry of a script: its own transforms, all of which have to be valid, on top of the
others. -/
def registry (base : Registry) (s : Script) : Except ScriptError Registry :=
  match base.extend s.transforms with
  | ([], registry) => .ok registry
  | (errors, _) => .error (.transforms errors)

def compile (base : Registry) (s : Script) : Fresh ScriptError Program := do
  let registry ← s.registry base
  let chain ← (s.chain.build registry).adapt .chain
  (Program.build registry chain s.options).adapt (.compile chain.id)

end Script

end ShaderChain
