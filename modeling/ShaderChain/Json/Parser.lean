import ShaderChain.Json.Token

/-! The value that a sequence of tokens stands for. The reader goes through the tokens once and
keeps the arrays and objects it is in. -/

namespace ShaderChain.Json

/-- What is known of an array or object that is not yet closed, latest part first. The members
are lost with the first name that cannot be read. -/
inductive Frame where
  | array (items : List Json)
  | object (members : Option (List (String × Json)))
  | member (members : Option (List (String × Json))) (name : Option String)

/-- What the next token has to be. -/
inductive Goal where
  | value
  | firstItem
  | firstMember
  | name
  | colon
  | separator (value : Json)

structure Reader where
  goal : Goal
  frames : List Frame

namespace Reader

def start : Reader :=
  ⟨.value, []⟩

def addMember (members : Option (List (String × Json))) (name : Option String)
    (value : Json) : Option (List (String × Json)) := do
  return (← name, value) :: (← members)

def objectOf : Option (List (String × Json)) → Json
  | some members => .object members.reverse
  | none => .unreadable

def beginValue (frames : List Frame) : Token → Option Reader
  | .openArray => some ⟨.firstItem, .array [] :: frames⟩
  | .openObject => some ⟨.firstMember, .object (some []) :: frames⟩
  | .null => some ⟨.separator .null, frames⟩
  | .bool b => some ⟨.separator (.bool b), frames⟩
  | .number (some n) => some ⟨.separator (.number n), frames⟩
  | .string (some s) => some ⟨.separator (.string s), frames⟩
  | .number none | .string none => some ⟨.separator .unreadable, frames⟩
  | _ => none

def step : Reader → Token → Option Reader
  | ⟨.value, frames⟩, token => beginValue frames token
  | ⟨.firstItem, .array _ :: frames⟩, .closeArray => some ⟨.separator (.array []), frames⟩
  | ⟨.firstItem, frames⟩, token => beginValue frames token
  | ⟨.firstMember, .object _ :: frames⟩, .closeObject =>
      some ⟨.separator (.object []), frames⟩
  | ⟨.firstMember, .object members :: frames⟩, .string name =>
      some ⟨.colon, .member members name :: frames⟩
  | ⟨.name, .object members :: frames⟩, .string name =>
      some ⟨.colon, .member members name :: frames⟩
  | ⟨.colon, frames⟩, .colon => some ⟨.value, frames⟩
  | ⟨.separator value, .array items :: frames⟩, .comma =>
      some ⟨.value, .array (value :: items) :: frames⟩
  | ⟨.separator value, .array items :: frames⟩, .closeArray =>
      some ⟨.separator (.array (value :: items).reverse), frames⟩
  | ⟨.separator value, .member members name :: frames⟩, .comma =>
      some ⟨.name, .object (addMember members name value) :: frames⟩
  | ⟨.separator value, .member members name :: frames⟩, .closeObject =>
      some ⟨.separator (objectOf (addMember members name value)), frames⟩
  | _, _ => none

def result? : Reader → Option Json
  | ⟨.separator value, []⟩ => some value
  | _ => none

end Reader

def ofTokens? (tokens : List Token) : Option Json := do
  (← tokens.foldlM Reader.step Reader.start).result?

/-- The value of a text that holds one value and white space. -/
def parse? (text : String) : Option Json := do
  ofTokens? (← Token.tokens? text.toList)

end ShaderChain.Json
