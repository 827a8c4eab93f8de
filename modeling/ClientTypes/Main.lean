import ClientTypes.CommandLine

/-!
# The program

Reads files from the disk and prints the outcome of the command line.
-/

namespace ClientTypes

/-- The code of an input error, which some sources report negated. -/
def faultCode (code : UInt32) : Nat := min code.toNat (0 - code).toNat

/-- The fault that an input error stands for. -/
def fileFault : IO.Error → FileFault
  | .noFileOrDirectory _ code text | .permissionDenied _ code text
  | .inappropriateType _ code text | .invalidArgument _ code text
  | .otherError code text => .ofCode (faultCode code) text
  | .userError _ => .notText
  | e => { text := e.toString }

/-- The text of a file. -/
def readText (path : String) : IO (Except FileFault String) := do
  try return .ok (← IO.FS.readFile path)
  catch e => return .error (fileFault e)

end ClientTypes

def main (args : List String) : IO UInt32 := do
  let outcome ← ClientTypes.CommandLine.run ClientTypes.readText args
  IO.print outcome.stdout
  IO.eprint outcome.stderr
  return outcome.code.toUInt32
