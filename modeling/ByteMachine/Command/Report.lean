import ByteMachine.Command.Invocation
import ByteMachine.Image
import ByteMachine.Machine.Run

/-!
# Reports

What the command prints and with which status it exits, as a function of its
arguments, the file it is to read, and the sink that its standard output is.
-/

namespace ByteMachine.Command

structure Report where
  status : Nat
  stdout : String
  stderr : String
deriving DecidableEq, Repr

namespace Report

/-! ## Texts -/

def usage : String :=
  "Usage: ls8 [OPTIONS] <PROGRAM>\n"

def helpText : String :=
  "LS-8 byte-code emulator\n\n" ++ usage ++
  "\nArguments:\n" ++
  "  <PROGRAM>  Program file, one binary byte per line\n" ++
  "\nOptions:\n" ++
  "  -t, --trace   Print a state trace line to stderr before every instruction\n" ++
  "  -d, --disasm  Print the disassembled program instead of running it\n" ++
  "  -h, --help    Print help\n"

/-- The exit status after a misuse of the command or a file that gives no program. -/
def loadStatus : Nat := 2

/-- The exit status after a fault, or output that could not be written. -/
def runStatus : Nat := 1

def errorLine (message : String) : String :=
  "ERROR: " ++ message ++ "\n"

def unlines (lines : List String) : String :=
  String.join (lines.map (· ++ "\n"))

/-! ## What the command does -/

/-- Writes each line until one fails. -/
def writeLines (stdout : Sink) : (lines : List String) → Sink × Except IoError Unit
  | [] => (stdout, .ok ())
  | line :: rest =>
    match stdout.writeLine line.toList with
    | (stdout, .ok ()) => writeLines stdout rest
    | failed => failed

/-- Prints the listing of `program`. -/
def ofListing (stdout : Sink) (program : List UInt8) : Report :=
  match writeLines stdout (disassemble program program.length) with
  | (stdout, .ok ()) => { status := 0, stdout := String.ofList stdout.text, stderr := "" }
  | (stdout, .error error) =>
    { status := runStatus, stdout := String.ofList stdout.text, stderr := errorLine error.text }

/-- The error that a line failed with, if that is what ended the run. -/
def unwritten : (result : Except Fault Unit) → Option IoError
  | .error (.output error) => some error
  | _ => none

/-- What is said of a run of the program at `path` and of the flush after it, if one of
them failed. Failing output is no doing of the program, so a flush that fails is
reported by itself, whatever the run came to. -/
def failureText? (path : String) (flushed : Except IoError Unit) (result : Except Fault Unit) :
    Option String :=
  match flushed, result with
  | .error error, _ => some error.text
  | .ok (), .error fault => some ("executing " ++ path ++ ": " ++ fault.message)
  | .ok (), .ok () => none

/-- The report on a run of the program at `path`, which left these trace lines. The
output is flushed after the run. -/
def ofOutcome (path traced : String) (outcome : Outcome Unit) : Report :=
  let printed := String.ofList outcome.sink.text
  let flushed := outcome.sink.flush (unwritten outcome.result)
  match failureText? path flushed outcome.result with
  | none => { status := 0, stdout := printed, stderr := traced }
  | some message =>
    { status := runStatus, stdout := printed, stderr := traced ++ errorLine message }

/-- Runs `program` on a new machine. -/
def ofRun (stdout : Sink) (options : Options) (program : List UInt8) : Report :=
  let outcome := ({ tracing := options.trace } : Machine).runWith program stdout
  ofOutcome options.path (unlines (outcome.trace.map TraceLine.text)) outcome

/-- Loads the program that `content` holds, and lists or runs it. -/
def ofOptions (stdout : Sink) (options : Options) (content : Except IoError ByteArray) :
    Report :=
  match Image.ofContent options.path content with
  | .ok program =>
    if options.disasm then ofListing stdout program else ofRun stdout options program
  | .error error => { status := loadStatus, stdout := "", stderr := errorLine error.message }

/-- The report on `invocation`, where `read` reads a file. -/
def ofInvocation (stdout : Sink) (read : String → Except IoError ByteArray) :
    Invocation → Report
  | .help => { status := 0, stdout := String.ofList (stdout.write helpText.toList).1.text, stderr := "" }
  | .misuse => { status := loadStatus, stdout := "", stderr := usage }
  | .execute options => ofOptions stdout options (read options.path)

end Report

end ByteMachine.Command
