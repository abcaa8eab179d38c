/-!
# Invocations

What the arguments of the command ask for. They are read from left to right, and
the first one that settles the matter does: a request for help, or an argument
that cannot stand where it stands. A path may come before or after the options;
options may be given once each, short ones in a cluster; after `--` there are
paths only.

Reading arguments is the work of a general parser that the command only declares
its options to. `Invocation.ofArguments` stands in for it. What is proved of
reports holds for any parser, by the invocation that it answers with.
-/

namespace ByteMachine.Command

structure Options where
  path : String
  trace : Bool := false
  disasm : Bool := false
deriving DecidableEq, Repr

inductive Invocation
  | help
  | misuse
  | execute (options : Options)
deriving DecidableEq, Repr

inductive Flag
  | trace
  | disasm
  | help
deriving DecidableEq, Repr

def Flag.ofShort? : Char → Option Flag
  | 't' => some trace
  | 'd' => some disasm
  | 'h' => some help
  | _ => none

def Flag.ofLong? : String → Option Flag
  | "trace" => some trace
  | "disasm" => some disasm
  | "help" => some help
  | _ => none

/-- What the arguments so far have given. -/
structure Given where
  path : Option String := none
  trace : Bool := false
  disasm : Bool := false
deriving DecidableEq, Repr

namespace Given

/-! Each argument adds to what is given, or settles the invocation. -/

def addFlag (given : Given) : Option Flag → Except Invocation Given
  | some .trace => if given.trace then .error .misuse else .ok { given with trace := true }
  | some .disasm => if given.disasm then .error .misuse else .ok { given with disasm := true }
  | some .help => .error .help
  | none => .error .misuse

def addPath (given : Given) (path : String) : Except Invocation Given :=
  if given.path.isSome || path.isEmpty then .error .misuse
  else .ok { given with path := some path }

/-- A single dash is a path. -/
def addArgument (given : Given) (argument : String) : Except Invocation Given :=
  match argument.toList with
  | '-' :: '-' :: name => given.addFlag (Flag.ofLong? (String.ofList name))
  | '-' :: c :: cluster =>
    (c :: cluster).foldlM (fun given c => given.addFlag (Flag.ofShort? c)) given
  | _ => given.addPath argument

def addArguments (given : Given) : (arguments : List String) → Except Invocation Given
  | [] => .ok given
  | argument :: rest =>
    if argument = "--" then rest.foldlM addPath given
    else do
      let given ← given.addArgument argument
      given.addArguments rest

end Given

/-- Stands in for the parser of arguments, which is not part of the command. -/
def Invocation.ofArguments (arguments : List String) : Invocation :=
  match Given.addArguments {} arguments with
  | .ok { path := some path, trace, disasm } => .execute { path, trace, disasm }
  | .ok { path := none, .. } => .misuse
  | .error settled => settled

end ByteMachine.Command
