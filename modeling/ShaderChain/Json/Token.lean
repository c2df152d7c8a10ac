import ShaderChain.Json.Basic

/-! The tokens of JSON text. A number or string without a value is a token all the same. -/

namespace ShaderChain.Json

inductive Token where
  | openArray
  | closeArray
  | openObject
  | closeObject
  | comma
  | colon
  | null
  | bool (b : Bool)
  | number (n : Option Number)
  | string (s : Option String)

namespace Token

def isSpace (c : Char) : Bool :=
  c == ' ' || c == '\t' || c == '\n' || c == '\r'

/-! Strings are read as UTF-16 code units where escapes give them, and as code points
elsewhere. Halves of surrogate pairs are joined afterwards. -/

def hexDigit? (c : Char) : Option Nat :=
  if '0' ≤ c ∧ c ≤ '9' then some (c.toNat - '0'.toNat)
  else if 'a' ≤ c ∧ c ≤ 'f' then some (c.toNat - 'a'.toNat + 10)
  else if 'A' ≤ c ∧ c ≤ 'F' then some (c.toNat - 'A'.toNat + 10)
  else none

def escape? : Char → Option Nat
  | '"' => some 0x22
  | '\\' => some 0x5C
  | '/' => some 0x2F
  | 'b' => some 0x08
  | 'f' => some 0x0C
  | 'n' => some 0x0A
  | 'r' => some 0x0D
  | 't' => some 0x09
  | _ => none

/-- Reads to the closing quote. `seen` holds the code units, latest first. -/
def stringUnits (seen : List Nat) : List Char → Option (List Nat × List Char)
  | [] => none
  | '"' :: rest => some (seen.reverse, rest)
  | '\\' :: 'u' :: c₁ :: c₂ :: c₃ :: c₄ :: rest =>
      match hexDigit? c₁, hexDigit? c₂, hexDigit? c₃, hexDigit? c₄ with
      | some d₁, some d₂, some d₃, some d₄ =>
          stringUnits ((((d₁ * 16 + d₂) * 16 + d₃) * 16 + d₄) :: seen) rest
      | _, _, _, _ => none
  | '\\' :: c :: rest =>
      match escape? c with
      | some unit => stringUnits (unit :: seen) rest
      | none => none
  | c :: rest => if c.toNat < 0x20 then none else stringUnits (c.toNat :: seen) rest

def isHighSurrogate (unit : Nat) : Bool :=
  0xD800 ≤ unit && unit < 0xDC00

def isLowSurrogate (unit : Nat) : Bool :=
  0xDC00 ≤ unit && unit < 0xE000

/-- Joins surrogate pairs. `seen` holds the characters, latest first. -/
def joinUnits (seen : List Char) : List Nat → Option (List Char)
  | [] => some seen.reverse
  | high :: low :: rest =>
      if isHighSurrogate high then
        if isLowSurrogate low then
          let code := 0x10000 + (high - 0xD800) * 0x400 + (low - 0xDC00)
          joinUnits (Char.ofNat code :: seen) rest
        else none
      else if isLowSurrogate high then none
      else joinUnits (Char.ofNat high :: seen) (low :: rest)
  | [unit] =>
      if isHighSurrogate unit || isLowSurrogate unit then none
      else some (Char.ofNat unit :: seen).reverse

/-! Numbers. -/

def natOf (ds : List Char) : Nat :=
  ds.foldl (fun n c => n * 10 + (c.toNat - '0'.toNat)) 0

/-- The digits in front, of which there has to be one. -/
def digits? (cs : List Char) : Option (List Char × List Char) :=
  match cs.span Char.isDigit with
  | ([], _) => none
  | found => some found

/-- The digits before the point: no zero in front of others. -/
def wholeDigits? : List Char → Option (List Char × List Char)
  | '0' :: rest => some (['0'], rest)
  | cs => digits? cs

def fraction? : List Char → Option (List Char × List Char)
  | '.' :: rest => digits? rest
  | cs => some ([], cs)

/-- The exponent, if one is written. -/
def exponent? : List Char → Option (Option Int × List Char)
  | c :: rest =>
      if c == 'e' || c == 'E' then
        match rest with
        | '+' :: rest => (digits? rest).map fun (ds, rest) => (some (natOf ds), rest)
        | '-' :: rest => (digits? rest).map fun (ds, rest) => (some (-(natOf ds : Int)), rest)
        | rest => (digits? rest).map fun (ds, rest) => (some (natOf ds), rest)
      else some (none, c :: rest)
  | [] => some (none, [])

def numberOf (negative : Bool) (whole fraction : List Char) (exponent : Option Int) :
    Option Number :=
  let coefficient := natOf (whole ++ fraction)
  if !negative && fraction.isEmpty && exponent.isNone && coefficient < Nat.pow 2 64 then
    some (.natural coefficient)
  else
    let d := Decimal.mk coefficient (exponent.getD 0 - fraction.length)
    (d.toBinary64? negative).map .real

def unsignedNumber? (negative : Bool) (cs : List Char) : Option (Token × List Char) := do
  let (whole, rest) ← wholeDigits? cs
  let (fraction, rest) ← fraction? rest
  let (exponent, rest) ← exponent? rest
  return (.number (numberOf negative whole fraction exponent), rest)

/-- The token in front of a text that starts with no white space. -/
def scan? : List Char → Option (Token × List Char)
  | '[' :: rest => some (.openArray, rest)
  | ']' :: rest => some (.closeArray, rest)
  | '\x7b' :: rest => some (.openObject, rest)
  | '\x7d' :: rest => some (.closeObject, rest)
  | ',' :: rest => some (.comma, rest)
  | ':' :: rest => some (.colon, rest)
  | 'n' :: 'u' :: 'l' :: 'l' :: rest => some (.null, rest)
  | 't' :: 'r' :: 'u' :: 'e' :: rest => some (.bool true, rest)
  | 'f' :: 'a' :: 'l' :: 's' :: 'e' :: rest => some (.bool false, rest)
  | '"' :: rest => do
      let (units, rest) ← stringUnits [] rest
      return (.string ((joinUnits [] units).map String.ofList), rest)
  | '-' :: rest => unsignedNumber? true rest
  | cs => unsignedNumber? false cs

/-- The tokens of a text, of which there are at most `fuel`. `seen` holds them latest first. -/
def tokensWithin (seen : List Token) : Nat → List Char → Option (List Token)
  | 0, _ => none
  | fuel + 1, cs =>
      match cs.dropWhile isSpace with
      | [] => some seen.reverse
      | c :: rest =>
          match scan? (c :: rest) with
          | some (token, rest) => tokensWithin (token :: seen) fuel rest
          | none => none

/-- The tokens of a text. Each takes at least one character. -/
def tokens? (cs : List Char) : Option (List Token) :=
  tokensWithin [] (cs.length + 1) cs

end Token

end ShaderChain.Json
