import ShaderChain.Json.Basic

/-! Records in JSON: an object with named fields, or an array of the same fields in order. -/

namespace ShaderChain.Json

/-- The value under a name, `some none` if there is none, and a failure if there are two. -/
def unique? (name : String) : List (String × Json) → Option (Option Json)
  | [] => some none
  | (key, value) :: rest =>
      if key = name then
        match unique? name rest with
        | some none => some (some value)
        | _ => none
      else unique? name rest

/-- The fields of a record in the order of `names`. An object may have other members too; an
array may lack fields at its end. -/
def record? (names : List String) : Json → Option (List (Option Json))
  | .object members => names.mapM fun name => unique? name members
  | .array items =>
      if items.length ≤ names.length then
        some (items.map some ++ List.replicate (names.length - items.length) none)
      else none
  | _ => none

def text? : Json → Option String
  | .string s => some s
  | _ => none

def number? : Json → Option Binary64
  | .number n => some n.toBinary64
  | _ => none

def list? (item? : Json → Option α) : Json → Option (List α)
  | .array items => items.mapM item?
  | _ => none

/-! A field may be required, may stand for nothing when it is null or absent, or may have a
value for its absence. -/

def required? (read? : Json → Option α) (field : Option Json) : Option α :=
  field.bind read?

def optional? (read? : Json → Option α) : Option Json → Option (Option α)
  | none | some .null => some none
  | some value => (read? value).map some

def withDefault? (default : α) (read? : Json → Option α) : Option Json → Option α
  | none => some default
  | some value => read? value

/-- A number, or null for infinities and what is not a number: they cannot be written. -/
def ofBinary64 (x : Binary64) : Json :=
  if x.isFinite then .number (.real x) else .null

/-- A member that is left out if there is no value for it. -/
def optionalMember (name : String) (value : Option Json) : List (String × Json) :=
  (value.map (name, ·)).toList

end ShaderChain.Json
