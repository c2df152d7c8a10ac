import ShaderChain.Json.Parser
import ShaderChain.Json.Record
import ShaderChain.Text.Blank

/-! The version of GLSL ES that a program is written for, and its precision. -/

namespace ShaderChain

inductive Version where
  | es100
  | es300
deriving DecidableEq

inductive Precision where
  | lowp
  | mediump
  | highp
deriving DecidableEq

inductive OptionsError where
  | unsupportedVersion (number : Nat)
  | unknownPrecision (text : String)
deriving DecidableEq

def OptionsError.message : OptionsError → String
  | .unsupportedVersion number =>
      s!"unsupported GLSL version {number} (expected 100 or 300)"
  | .unknownPrecision text =>
      s!"unknown precision '{text}' (expected lowp, mediump or highp)"

namespace Version

def number : Version → Nat
  | .es100 => 100
  | .es300 => 300

def ofNumber : Nat → Except OptionsError Version
  | 100 => .ok .es100
  | 300 => .ok .es300
  | n => .error (.unsupportedVersion n)

theorem ofNumber_number (version : Version) : ofNumber version.number = .ok version := by
  cases version <;> rfl

def dropEs : List Char → List Char
  | 'e' :: 's' :: rest => dropEs rest
  | cs => cs

/-- The value of a digit string, after a plus sign or none, if it is below `2 ^ 32`. -/
def word? (cs : List Char) : Option Nat :=
  let ds := match cs with
    | '+' :: rest => rest
    | cs => cs
  let n := ds.foldl (fun n c => n * 10 + (c.toNat - '0'.toNat)) 0
  if !ds.isEmpty && ds.all Char.isDigit && n < Nat.pow 2 32 then some n else none

/-- Reads a version such as `300` or `es300`. What is no number counts as version zero. -/
def parse (text : String) : Except OptionsError Version :=
  match word? (dropEs (Text.trim text.toList)) with
  | some n => ofNumber n
  | none => .error (.unsupportedVersion 0)

def ofJson? : Json → Option Version
  | .number (.natural n) => (ofNumber n).toOption
  | _ => none

def toJson (version : Version) : Json :=
  .number (.natural version.number)

end Version

namespace Precision

def keyword : Precision → String
  | .lowp => "lowp"
  | .mediump => "mediump"
  | .highp => "highp"

def ofKeyword? : String → Option Precision
  | "lowp" => some .lowp
  | "mediump" => some .mediump
  | "highp" => some .highp
  | _ => none

theorem ofKeyword?_keyword (precision : Precision) :
    ofKeyword? precision.keyword = some precision := by
  cases precision <;> rfl

def parse (text : String) : Except OptionsError Precision :=
  let trimmed := String.ofList (Text.trim text.toList)
  match ofKeyword? trimmed with
  | some precision => .ok precision
  | none => .error (.unknownPrecision trimmed)

/-- A precision is its keyword, or an object that has the keyword as its only name and null under
it. -/
def ofJson? : Json → Option Precision
  | .string s => ofKeyword? s
  | .object [(name, .null)] => ofKeyword? name
  | _ => none

def toJson (precision : Precision) : Json :=
  .string precision.keyword

end Precision

structure Options where
  version : Version := .es300
  precision : Precision := .highp
deriving DecidableEq

namespace Options

def ofJson? (json : Json) : Option Options := do
  match ← json.record? ["glslVersion", "precision"] with
  | [version, precision] =>
      return {
        version := ← Json.withDefault? .es300 Version.ofJson? version
        precision := ← Json.withDefault? .highp Precision.ofJson? precision }
  | _ => none

def toJson (options : Options) : Json :=
  .object [("glslVersion", options.version.toJson), ("precision", options.precision.toJson)]

def parse? (text : String) : Option Options := do
  ofJson? (← Json.parse? text)

end Options

end ShaderChain
