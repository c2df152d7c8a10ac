import ShaderChain.Command.Run

/-! The command line program. -/

namespace ShaderChain

def fileError : IO.Error → FileError
  | .noFileOrDirectory .. => .notFound
  | .alreadyExists .. => .exists
  | .inappropriateType _ code _ => if code = 21 then .isADirectory else .notADirectory
  | e@(.invalidArgument _ code _) => if code = 36 then .nameTooLong else .other (toString e)
  | e => .other (toString e)

def attempt (action : IO α) : IO (Except FileError α) := do
  try
    return .ok (← action)
  catch e =>
    return .error (fileError e)

instance : Files IO where
  readText path := attempt (IO.FS.readFile path)
  makeDir path := attempt (IO.FS.createDir path)
  writeText path text := attempt (IO.FS.writeFile path text)
  print := IO.print

def report (message : String) : IO UInt32 := do
  IO.eprintln ("Error: " ++ message)
  return 1

end ShaderChain

open ShaderChain in
def main (args : List String) : IO UInt32 := do
  match Command.parse args with
  | .error e => report e.message
  | .ok command =>
      match ← (command.run : ExceptT CommandError IO Unit).run with
      | .ok () => return 0
      | .error e => report e.message
