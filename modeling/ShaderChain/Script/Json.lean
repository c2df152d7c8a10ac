import ShaderChain.Json.Parser
import ShaderChain.Json.Record
import ShaderChain.Script.Outline

/-! Outlines in JSON. A number stands for itself, an object with a number under `uniform` or a
text under `texture` for these, and any other object or an array for a chain. -/

namespace ShaderChain.Outline

/-! Reading. A form that does not fit gives way to the next one. -/

def uniform? (members : List (String × Json)) : Option Arg := do
  return .uniform (← Json.required? Json.number? (← Json.unique? "uniform" members))

def texture? (members : List (String × Json)) : Option Arg := do
  return .texture (← Json.required? Json.text? (← Json.unique? "texture" members))

/-- A chain from its members, of which the ops have been read. -/
def ofMembers? (members : List (String × Json)) (ops : Option (Option (List Op))) :
    Option Outline := do
  let getter ← Json.optional? Json.text? (← Json.unique? "getter" members)
  return ⟨← (← ops), getter⟩

mutual

def argOfJson? : Json → Option Arg
  | .number n => some (.number n.toBinary64)
  | .object members =>
      uniform? members <|> texture? members <|>
        (ofMembers? members (opsMember? members)).map .chain
  | .array [ops] => do return .chain ⟨← opsOfJson? ops, none⟩
  | .array [ops, getter] => do
      return .chain ⟨← opsOfJson? ops, ← Json.optional? Json.text? (some getter)⟩
  | _ => none

/-- The ops among the members of a chain, if there are some. -/
def opsMember? : List (String × Json) → Option (Option (List Op))
  | [] => some none
  | (name, value) :: rest =>
      if name = "ops" then
        match opsMember? rest with
        | some none => (opsOfJson? value).map some
        | _ => none
      else opsMember? rest

def opsOfJson? : Json → Option (List Op)
  | .array items => opList? items
  | _ => none

def opList? : List Json → Option (List Op)
  | [] => some []
  | item :: rest => do return (← opOfJson? item) :: (← opList? rest)

def opOfJson? : Json → Option Op
  | .object members => do
      let op ← Json.required? Json.text? (← Json.unique? "op" members)
      let args ← argsMember? members
      return ⟨op, args.getD []⟩
  | .array [op] => do return ⟨← op.text?, []⟩
  | .array [op, args] => do return ⟨← op.text?, ← argsOfJson? args⟩
  | _ => none

/-- The arguments among the members of an op, if there are some. -/
def argsMember? : List (String × Json) → Option (Option (List Arg))
  | [] => some none
  | (name, value) :: rest =>
      if name = "args" then
        match argsMember? rest with
        | some none => (argsOfJson? value).map some
        | _ => none
      else argsMember? rest

def argsOfJson? : Json → Option (List Arg)
  | .array items => argList? items
  | _ => none

def argList? : List Json → Option (List Arg)
  | [] => some []
  | item :: rest => do return (← argOfJson? item) :: (← argList? rest)

end

def ofJson? : Json → Option Outline
  | .object members => ofMembers? members (opsMember? members)
  | .array [ops] => do return ⟨← opsOfJson? ops, none⟩
  | .array [ops, getter] => do
      return ⟨← opsOfJson? ops, ← Json.optional? Json.text? (some getter)⟩
  | _ => none

/-! Writing. -/

mutual

def argToJson : Arg → Json
  | .number value => .ofBinary64 value
  | .uniform value => .object [("uniform", .ofBinary64 value)]
  | .texture name => .object [("texture", .string name)]
  | .chain ⟨ops, getter⟩ =>
      .object (("ops", .array (opsToJson ops)) ::
        Json.optionalMember "getter" (getter.map .string))

def opsToJson : List Op → List Json
  | [] => []
  | ⟨op, args⟩ :: rest =>
      .object [("op", .string op), ("args", .array (argsToJson args))] :: opsToJson rest

def argsToJson : List Arg → List Json
  | [] => []
  | arg :: rest => argToJson arg :: argsToJson rest

end

def toJson (outline : Outline) : Json :=
  argToJson (.chain outline)

/-! The arguments of a chain have to be readable in full, also where they are ignored. -/

def opArgumentsFit (levels : Nat) (op : Json) : Bool :=
  match op.record? ["op", "args"] with
  | some [_, some (.array args)] => Json.allFit levels args
  | _ => true

/-- Whether the arguments in a document fit, of which `above` levels lead to the chain. An
argument stands in an array, in an op, in an array, in the chain. -/
def argumentsFit (above : Nat) (chain : Json) : Bool :=
  match chain.record? ["ops", "getter"] with
  | some [some (.array ops), _] => ops.all (opArgumentsFit (Json.maxLevels - above - 4))
  | _ => true

def parse? (text : String) : Option Outline := do
  let json ← Json.parse? text
  guard (argumentsFit 0 json)
  ofJson? json

end ShaderChain.Outline
