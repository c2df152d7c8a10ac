import ShaderChain.Text.Blank
import ShaderChain.Text.Identifier

/-! The layout of a snippet: the key that forgets it, and indentation. -/

namespace ShaderChain.Text

/-! The spacing key of a snippet drops all white space but one space between two identifier
characters that white space keeps apart. `afterIdent` tells whether the last character kept is
an identifier character, `gap` whether white space was dropped since. -/

def spacingKeyFrom (afterIdent gap : Bool) : List Char → List Char
  | [] => []
  | c :: rest =>
      if isBlank c then spacingKeyFrom afterIdent true rest
      else if afterIdent && gap && isIdentChar c then
        ' ' :: c :: spacingKeyFrom true false rest
      else c :: spacingKeyFrom (isIdentChar c) false rest

def spacingKey (cs : List Char) : List Char :=
  spacingKeyFrom false false cs

/-- Whether `part` stands somewhere in the text. -/
def occurs (part : List Char) : List Char → Bool
  | [] => part.isEmpty
  | c :: rest => part.isPrefixOf (c :: rest) || occurs part rest

/-! Indentation trims the end of each line and puts the indent in front of those that are not
empty then. -/

def indentLine (indent line : List Char) : List Char :=
  match trimEnd line with
  | [] => []
  | trimmed => indent ++ trimmed

def indentLines (indent body : List Char) : List Char :=
  ['\n'].intercalate ((lines body).map (indentLine indent))

end ShaderChain.Text
