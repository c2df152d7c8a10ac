/-! GLSL identifiers, and the search for an identifier in a text. -/

namespace ShaderChain.Text

def isIdentChar (c : Char) : Bool :=
  c.isAlphanum || c == '_'

def isReserved (cs : List Char) : Bool :=
  ['g', 'l', '_'].isPrefixOf cs

/-- An identifier is a letter or an underscore followed by letters, digits and underscores, all
of them ASCII. Names that start with `gl_` are reserved. -/
def isIdentifier : List Char → Bool
  | [] => false
  | c :: rest =>
      (c.isAlpha || c == '_') && rest.all isIdentChar && !isReserved (c :: rest)

/-- What a search for a whole identifier ends with. -/
inductive Search where
  | found
  | absent
  /-- The search would have to go on from inside a character of several bytes. -/
  | offBoundary
deriving DecidableEq

/-- Whether an identifier character stands at the edge of an occurrence. -/
def touches (edge : Option Char) : Bool :=
  edge.any isIdentChar

/-! An occurrence counts if no identifier character touches it. After one that does not count
the search resumes one byte further on, which is the next character only if the first one is
ASCII. -/

def searchFrom (ident : List Char) (before : Option Char) : List Char → Search
  | [] => .absent
  | c :: rest =>
      if ident.isPrefixOf (c :: rest) then
        if !touches before && !touches ((c :: rest).drop ident.length).head? then .found
        else if c.toNat < 0x80 then searchFrom ident (some c) rest
        else .offBoundary
      else searchFrom ident (some c) rest

/-- Looks for `ident` as a whole identifier. An empty one is never found. -/
def search (ident text : List Char) : Search :=
  if ident.isEmpty then .absent else searchFrom ident none text

/-- Whether `text` names `ident`. -/
def mentions (text ident : String) : Bool :=
  search ident.toList text.toList == .found

end ShaderChain.Text
