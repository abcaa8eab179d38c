import ByteMachine.Fault
import ByteMachine.Listing

/-!
# Log records

What the machine and the loader report about their work, as values. A record's
level and wording follow from what happened.
-/

namespace ByteMachine.Log

open Numeral

inductive Level
  | debug
  | trace
deriving DecidableEq, Repr

def Level.name : Level → String
  | debug => "DEBUG"
  | trace => "TRACE"

inductive Record
  /-- A program of `length` bytes was copied to memory. -/
  | loaded (length : Nat)
  /-- The instruction at `address`, which is listed as `item`, is about to be
  carried out. -/
  | dispatched (address : Nat) (item : Option Item)
  | halted (address : Nat)
  | stopped (address : Nat) (fault : Fault)
  /-- The file at `path` gave a program of `length` bytes. -/
  | image (path : String) (length : Nat)
deriving DecidableEq, Repr

namespace Record

def level : Record → Level
  | dispatched _ _ => .trace
  | _ => .debug

def message : Record → String
  | loaded length => "loaded " ++ decimal length ++ " byte program"
  | dispatched address item => hex 2 address ++ ": " ++ Item.textOf item
  | halted address => "halted at " ++ hex 2 address
  | stopped address fault => "fault at " ++ hex 2 address ++ ": " ++ fault.message
  | image path length => path ++ ": " ++ decimal length ++ " byte image"

def text (record : Record) : String :=
  record.level.name ++ " " ++ record.message

end Record

end ByteMachine.Log
