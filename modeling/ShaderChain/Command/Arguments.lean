import ShaderChain.Glsl.Options

/-! The command line. -/

namespace ShaderChain

/-- What a command line asks for. -/
structure Command where
  script : Option String := none
  outDir : Option String := none
  catalog : Option String := none
  version : Option Version := none
  precision : Option Precision := none
  list : Bool := false
deriving DecidableEq

inductive UsageError where
  | missingValue (flag : String)
  | unknownArgument (text : String)
  | options (cause : OptionsError)
deriving DecidableEq

namespace Command

def usage : String :=
  "supported: --script <chain.json>, --out-dir <dir>, --glsl-version <100|300>, " ++
    "--precision <lowp|mediump|highp>, --catalog <transforms.json>, --list"

end Command

def UsageError.message : UsageError → String
  | .missingValue flag => "missing value for " ++ flag
  | .unknownArgument text => "unknown argument: " ++ text ++ " (" ++ Command.usage ++ ")"
  | .options cause => cause.message

namespace Command

/-- The options that take a value. -/
inductive Flag where
  | script
  | outDir
  | catalog
  | version
  | precision
deriving DecidableEq

def Flag.ofText? : String → Option Flag
  | "--script" => some .script
  | "--out-dir" | "--output-dir" => some .outDir
  | "--catalog" => some .catalog
  | "--glsl-version" => some .version
  | "--precision" => some .precision
  | _ => none

def set (c : Command) (value : String) : Flag → Except UsageError Command
  | .script => .ok { c with script := some value }
  | .outDir => .ok { c with outDir := some value }
  | .catalog => .ok { c with catalog := some value }
  | .version => do
      let version ← (Version.parse value).mapError .options
      return { c with version := some version }
  | .precision => do
      let precision ← (Precision.parse value).mapError .options
      return { c with precision := some precision }

/-- Reads the rest of a command line. What follows a flag is its value, whatever it looks like. -/
def parseFrom (c : Command) : List String → Except UsageError Command
  | [] => .ok c
  | [arg] =>
      if arg = "--list" then .ok { c with list := true }
      else match Flag.ofText? arg with
        | some _ => .error (.missingValue arg)
        | none => .error (.unknownArgument arg)
  | arg :: value :: rest =>
      if arg = "--list" then parseFrom { c with list := true } (value :: rest)
      else match Flag.ofText? arg with
        | some flag =>
            match c.set value flag with
            | .ok next => parseFrom next rest
            | .error e => .error e
        | none => .error (.unknownArgument arg)

def parse (args : List String) : Except UsageError Command :=
  parseFrom {} args

end Command

end ShaderChain
