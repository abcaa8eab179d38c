import ByteMachine.Log
import ByteMachine.Memory
import ByteMachine.Source

/-!
# Program images

The bytes of a program file, ready to be loaded into memory. Reading one can
fail in three ways: the file cannot be read, its text is faulty, or the program
is larger than memory. A faulty line is reported whatever the size.
-/

namespace ByteMachine

inductive LoadError
  | unreadable (path : String) (error : IoError)
  | malformed (path : String) (error : LexError)
  | tooLarge (path : String) (length capacity : Nat)
deriving DecidableEq, Repr

def LoadError.message : LoadError → String
  | unreadable path error => "cannot read " ++ path ++ ": " ++ error.text
  | malformed path error => path ++ ": " ++ error.message
  | tooLarge path length capacity => path ++ ": " ++ Fault.tooLargeMessage length capacity

namespace Image

/-- The program that the text of the file at `path` holds. -/
def ofText (path text : String) : Except LoadError (List UInt8) :=
  match Source.program text with
  | .ok program =>
    if program.length ≤ Memory.capacity then .ok program
    else .error (.tooLarge path program.length Memory.capacity)
  | .error error => .error (.malformed path error)

/-- The program of the file at `path`, given what reading the file gave. The
content has to be text in UTF-8. -/
def ofContent (path : String) (content : Except IoError ByteArray) :
    Except LoadError (List UInt8) :=
  match content with
  | .ok bytes =>
    match String.fromUTF8? bytes with
    | some text => ofText path text
    | none => .error (.unreadable path .notUtf8)
  | .error error => .error (.unreadable path error)

/-- What is logged about the loading of the file at `path`: its size, if it succeeded. -/
def log (path : String) : Except LoadError (List UInt8) → List Log.Record
  | .ok program => [.image path program.length]
  | .error _ => []

end Image

end ByteMachine
