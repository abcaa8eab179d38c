import ByteMachine.Command.Report

/-!
# The command

Reads the file that the arguments name, prints the report, and exits with its
status.
-/

namespace ByteMachine.Command

/-- The number of the operating system's error, which may come negated. -/
def errorNumber (code : UInt32) : Nat :=
  if code < 0x80000000 then code.toNat else (0 - code).toNat

/-- The error as the command words it. -/
def ofSystemError (error : IO.Error) : IoError :=
  let code? := match error with
    | .noFileOrDirectory _ code _ => some code
    | .permissionDenied _ code _ => some code
    | .inappropriateType _ code _ => some code
    | .invalidArgument _ code _ => some code
    | .resourceExhausted _ code _ => some code
    | .resourceVanished code _ => some code
    | .otherError code _ => some code
    | _ => none
  match code?.bind fun code => IoError.Errno.ofNumber? (errorNumber code) with
  | some errno => .ofErrno errno
  | none => ⟨.other, toString error⟩

def readFile (path : String) : IO (Except IoError ByteArray) := do
  try
    return .ok (← IO.FS.readBinFile path)
  catch error =>
    return .error (ofSystemError error)

/-- Carries out what the arguments ask for. If standard output fails, the report
is the one for output that fails. -/
def execute (arguments : List String) : IO UInt32 := do
  let invocation := Invocation.ofArguments arguments
  let content ← match invocation with
    | .execute options => readFile options.path
    | _ => pure (.error (.ofErrno .noSuchFile))
  let report (stdout : Sink) := Report.ofInvocation stdout (fun _ => content) invocation
  let intended := report .unlimited
  let done ← try
    IO.print intended.stdout
    (← IO.getStdout).flush
    pure intended
  catch error =>
    pure (report (.refusing (ofSystemError error)))
  IO.eprint done.stderr
  return done.status.toUInt32

end ByteMachine.Command

def main (arguments : List String) : IO UInt32 :=
  ByteMachine.Command.execute arguments
