import CornerPoint.CommandLine.Outcome

/-!
# The program

Reads the command line and the file, prints what the command yields, and ends with its code.
-/

namespace CornerPoint.CommandLine

/-- What the system says about a failure to read. -/
def ReadError.ofFailure : IO.Error → ReadError
  | .noFileOrDirectory _ code meaning | .permissionDenied _ code meaning
  | .inappropriateType _ code meaning | .resourceExhausted _ code meaning
  | .invalidArgument _ code meaning | .interrupted _ code meaning
  | .noSuchThing _ code meaning | .alreadyExists _ code meaning
  | .otherError code meaning | .resourceBusy code meaning | .resourceVanished code meaning
  | .unsupportedOperation code meaning | .hardwareFault code meaning
  | .unsatisfiedConstraints code meaning | .illegalOperation code meaning
  | .protocolError code meaning | .timeExpired code meaning => .system code.toNat meaning
  | .unexpectedEof => .system 0 "End of file"
  | .userError meaning => .system 0 meaning

/-- What a file holds, or why it cannot be read. -/
def readFile (file : String) : IO (Except ReadError String) := do
  try
    let handle ← IO.FS.Handle.mk file .read
    return decode (← handle.readBinToEnd)
  catch e =>
    return .error (.ofFailure e)

end CornerPoint.CommandLine

open CornerPoint.CommandLine

/-- Solves linear programs in two variables from the command line. -/
def main (arguments : List String) : IO UInt32 := do
  match Command.read arguments with
  | .error .help =>
    IO.print helpText
    return 0
  | .error .misused =>
    IO.eprint helpText
    return 2
  | .ok command =>
    let outcome := command.outcome (← readFile command.file)
    IO.print outcome.output
    IO.eprint outcome.errors
    return outcome.code.toUInt32
