import ShaderChain.Number.Decimal

/-! JSON values. Objects keep their members in the order of the text, repeated names included. -/

namespace ShaderChain

/-- A number that is written without sign, point and exponent and is below `2 ^ 64` is natural. -/
inductive Json.Number where
  | natural (n : Nat)
  | real (x : Binary64)
deriving DecidableEq

inductive Json where
  | null
  | bool (b : Bool)
  | number (n : Json.Number)
  | string (s : String)
  | array (items : List Json)
  | object (members : List (String × Json))
  /-- Well-formed text that stands for no value: a number past all doubles, a string with half of
  a surrogate pair, or an object with such a string for a name. -/
  | unreadable

namespace Json

def Number.toBinary64 : Number → Binary64
  | .natural n => .ofNat n
  | .real x => x

/-! A value fits into a number of levels if every part of it can be read and its arrays and
objects are nested no deeper than that. -/

mutual

def fits (levels : Nat) : Json → Bool
  | .unreadable => false
  | .array items => levels != 0 && allFit (levels - 1) items
  | .object members => levels != 0 && membersFit (levels - 1) members
  | _ => true

def allFit (levels : Nat) : List Json → Bool
  | [] => true
  | item :: rest => fits levels item && allFit levels rest

def membersFit (levels : Nat) : List (String × Json) → Bool
  | [] => true
  | (_, value) :: rest => fits levels value && membersFit levels rest

end

/-- How deep a document may be nested. -/
def maxLevels : Nat :=
  127

end Json

end ShaderChain
