import AtsEndpoint.Tool.Run

/-!
# The tool

Reads the files that the command names, runs it, and prints what it leaves
behind.
-/

namespace AtsEndpoint.Tool

/-- Read a file from disk. -/
def readFromDisk (path : String) : IO (Except ReadProblem ByteArray) := do
  try
    return .ok (← IO.FS.readBinFile path)
  catch problem =>
    match problem with
    | .noFileOrDirectory .. => return .error .notFound
    | .inappropriateType _ code _ =>
      return .error (if code = 21 then .isDirectory else .notDirectory)
    | .invalidArgument _ code _ =>
      return .error (if code = -36 then .nameTooLong else .other (toString problem))
    | _ => return .error (.other (toString problem))

end AtsEndpoint.Tool

open AtsEndpoint.Tool

def main (arguments : List String) : IO UInt32 := do
  let files :=
    match Command.parse arguments with
    | .ok command => command.files
    | .error _ => []
  let found ← files.mapM fun file => return (file, ← readFromDisk file)
  let outcome := run arguments fun file => (found.lookup file).getD (.error .notFound)
  IO.print outcome.stdout
  IO.eprint outcome.stderr
  return outcome.code.toUInt32
