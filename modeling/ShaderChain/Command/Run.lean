import ShaderChain.Builtin
import ShaderChain.Command.Arguments
import ShaderChain.Command.Files
import ShaderChain.Script.Basic
import ShaderChain.Transform.Catalog

/-! What a command does. All that can fail in a document or a chain fails before anything is
printed or written. -/

namespace ShaderChain

inductive CommandError where
  | nothingToDo
  | unreadableCatalog (path : String) (cause : FileError)
  | malformedCatalog (path : String)
  | unreadableScript (path : String) (cause : FileError)
  | malformedScript (path : String)
  | script (cause : ScriptError)
  | makeDirs (path : String) (cause : FileError)
  | write (path : String) (cause : FileError)
deriving DecidableEq

/-- What is said of a document that is no catalog. -/
def Catalog.malformed : String :=
  "failed to parse transform catalog"

/-- What is said of a document that is no script. -/
def Script.malformed : String :=
  "failed to parse chain script json"

def CommandError.message : CommandError → String
  | .nothingToDo => "nothing to do (" ++ Command.usage ++ ")"
  | .unreadableCatalog path cause => "failed to read catalog " ++ path ++ ": " ++ cause.message
  | .malformedCatalog path => "failed to load catalog " ++ path ++ ": " ++ Catalog.malformed
  | .unreadableScript path cause =>
      "failed to read chain script at " ++ path ++ ": " ++ cause.message
  | .malformedScript path => "in " ++ path ++ ": " ++ Script.malformed
  | .script cause => cause.message
  | .makeDirs path cause => "failed to create " ++ path ++ ": " ++ cause.message
  | .write path cause => "failed to write " ++ path ++ ": " ++ cause.message

namespace Command

/-- The options of a script, where the command line does not say otherwise. -/
def overrideOptions (c : Command) (options : Options) : Options where
  version := c.version.getD options.version
  precision := c.precision.getD options.precision

variable {m : Type → Type} [Monad m] [Files m]

def orError (wrap : FileError → CommandError) (x : m (Except FileError α)) :
    ExceptT CommandError m α := do
  match ← x with
  | .ok a => return a
  | .error e => throw (wrap e)

def print (text : String) : ExceptT CommandError m Unit :=
  ExceptT.lift (Files.print text)

def baseRegistry (c : Command) : ExceptT CommandError m Registry := do
  match c.catalog with
  | none => return .builtin
  | some path =>
      let text ← orError (.unreadableCatalog path) (Files.readText path)
      match Catalog.parse? text with
      | some descriptors => return .ofDescriptors descriptors
      | none => throw (.malformedCatalog path)

def loadScript (c : Command) (path : String) : ExceptT CommandError m Script := do
  let text ← orError (.unreadableScript path) (Files.readText path)
  match Script.parse? text with
  | some script => return { script with options := c.overrideOptions script.options }
  | none => throw (.malformedScript path)

/-- The program of a script, with chains and groups numbered from the start. -/
def compileScript (registry : Registry) (script : Script) : Except CommandError Program :=
  let (result, _) := (script.compile registry).run.run {}
  result.mapError .script

def save (dir name text : String) : ExceptT CommandError m Unit := do
  let path := Path.join dir name
  orError (.write path) (Files.writeText path text)
  print ("saved: " ++ path ++ "\n")

def emit (c : Command) (scriptPath : String) (program : Program) :
    ExceptT CommandError m Unit := do
  match c.outDir with
  | none =>
      print ("// fragment\n" ++ program.fragment ++ "\n")
      print ("// vertex\n" ++ program.vertex ++ "\n")
  | some dir =>
      let stem := (Path.stem? scriptPath).getD "chain"
      orError (.makeDirs dir) (Files.makeDirs dir)
      save dir (stem ++ ".frag") program.fragment
      save dir (stem ++ ".vert") program.vertex

def run (c : Command) : ExceptT CommandError m Unit := do
  let registry ← c.baseRegistry
  if c.list then
    print registry.listing
  else
    match c.script with
    | none => throw .nothingToDo
    | some path =>
        let script ← c.loadScript path
        let program ← compileScript registry script
        c.emit path program

end Command

end ShaderChain
