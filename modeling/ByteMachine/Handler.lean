import ByteMachine.Machine.Basic

/-!
# Handlers

What each instruction does. A handler is given the two operand bytes, of which
it may ignore some, and works on the machine and its sink in place: it reads and
writes registers and cells one after the other, until a fault ends it. Nothing
takes back what was done before a fault, so a handler has to meet everything
that can fail before it changes anything.
-/

namespace ByteMachine

/-- Work on a machine and the sink of its output. A fault ends the work and
leaves both as they are at that point. -/
abbrev Action := EStateM Fault (Machine × Sink)

namespace Action

def register (index : UInt8) : Action UInt8 := do
  let (machine, _) ← get
  MonadExcept.ofExcept (machine.register index)

def setRegister (index value : UInt8) : Action Unit := do
  let register ← MonadExcept.ofExcept (Register.ofByte index)
  modify fun (machine, sink) =>
    ({ machine with store := machine.store.setRegister register value }, sink)

def sp : Action UInt8 := do
  let (machine, _) ← get
  return machine.store.sp

def setSp (value : UInt8) : Action Unit :=
  modify fun (machine, sink) => ({ machine with store := machine.store.setSp value }, sink)

def cell (address : Nat) : Action UInt8 := do
  let (machine, _) ← get
  MonadExcept.ofExcept (machine.store.memory.read address)

def setCell (address : Nat) (value : UInt8) : Action Unit := do
  let (machine, sink) ← get
  let memory ← MonadExcept.ofExcept (machine.store.memory.write address value)
  set ({ machine with store := { machine.store with memory } }, sink)

/-- Writes `line` and the line feed that ends it. The sink may take a part of it
and then fail. -/
def printLine (line : List Char) : Action Unit := do
  let (machine, sink) ← get
  let (sink, result) := sink.writeLine line
  set (machine, sink)
  match result with
  | .ok () => return ()
  | .error error => throw (.output error)

end Action

/-- Whether the machine goes on after an instruction. -/
inductive Flow
  | next
  | halt
deriving DecidableEq, Repr

abbrev Handler :=
  (a b : UInt8) → Action Flow

namespace Handler

open ByteMachine.Action

def hlt : Handler := fun _ _ => return .halt

def ldi : Handler := fun a b => do
  setRegister a b
  return .next

/-- Prints the register in decimal on a line of its own. -/
def prn : Handler := fun a _ => do
  let value ← register a
  printLine (Numeral.decimalDigits value.toNat)
  return .next

/-! ## Stack

The stack pointer is the address of the top cell. Both instructions treat it as
a register like any other: pushing it stores its new value, and popping into it
goes on from the popped value. -/

def push : Handler := fun a _ => do
  let _ ← register a
  let top ← sp
  if top = 0 then throw (.stackOutOfBounds .push top)
  setSp (top - 1)
  -- read only now: of the stack pointer the new value is pushed
  let value ← register a
  let lowered ← sp
  setCell lowered.toNat value
  return .next

def pop : Handler := fun a _ => do
  let _ ← register a
  let top ← sp
  let value ← cell top.toNat
  let base := if a = 7 then value else top
  if base = 255 then throw (.stackOutOfBounds .pop top)
  setRegister a value
  setSp (base + 1)
  return .next

/-! ## Arithmetic

All arithmetic is modulo 256. -/

/-- Combines two registers into the first. The second operand is looked at
first. -/
def binary (f : UInt8 → UInt8 → UInt8) : Handler := fun a b => do
  let right ← register b
  let left ← register a
  setRegister a (f left right)
  return .next

def unary (f : UInt8 → UInt8) : Handler := fun a _ => do
  let value ← register a
  setRegister a (f value)
  return .next

end Handler

/-- The handler of each instruction. -/
def Opcode.handler : Opcode → Handler
  | hlt => Handler.hlt
  | ldi => Handler.ldi
  | prn => Handler.prn
  | push => Handler.push
  | pop => Handler.pop
  | add => Handler.binary (· + ·)
  | sub => Handler.binary (· - ·)
  | mul => Handler.binary (· * ·)
  | inc => Handler.unary (· + 1)
  | dec => Handler.unary (· - 1)

end ByteMachine
