import ByteMachine.IoError
import ByteMachine.Opcode

/-!
# Faults

Everything that can go wrong while a program is loaded or executed, as causes
that keep the values they are about. The wording is in `Fault.message` alone.
-/

namespace ByteMachine

inductive Fault
  /-- The byte at `address` is no instruction. -/
  | unknownInstruction (address : Nat) (byte : UInt8)
  | addressOutOfBounds (address : Nat)
  /-- `opcode` would move the stack pointer, which was `sp`, outside of memory. -/
  | stackOutOfBounds (opcode : Opcode) (sp : UInt8)
  /-- A register operand names none of the eight registers. -/
  | invalidRegister (index : UInt8)
  | programTooLarge (length capacity : Nat)
  /-- The machine already executed HLT. -/
  | halted
  /-- An earlier fault stopped the machine. -/
  | faulted
  | output (error : IoError)
deriving DecidableEq, Repr

namespace Fault

/-- The faults that an instruction can meet. The others are answers of the loader
and of a machine that is stopped. -/
def OfInstruction : Fault → Prop
  | programTooLarge _ _ | halted | faulted => False
  | _ => True

open Numeral

/-- A program of `length` bytes does not fit; the loader says so in the same words. -/
def tooLargeMessage (length capacity : Nat) : String :=
  "program is " ++ decimal length ++ " bytes, memory holds " ++ decimal capacity

def message : Fault → String
  | unknownInstruction address byte =>
    "unknown instruction 0x" ++ hexByte byte ++ " at address 0x" ++ hex 2 address
  | addressOutOfBounds address => "address 0x" ++ hex 1 address ++ " is out of bounds"
  | stackOutOfBounds opcode sp =>
    "stack pointer out of bounds: " ++ opcode.mnemonic ++ " with sp=0x" ++ hexByte sp
  | invalidRegister index => "register index " ++ decimal index.toNat ++ " out of bounds"
  | programTooLarge length capacity => tooLargeMessage length capacity
  | halted => "machine is halted"
  | faulted => "machine stopped after a fatal error"
  | output error => "output error (" ++ error.kind.description ++ "): " ++ error.text

end Fault

/-- What succeeded hands its value on. -/
theorem ok_bind {ε α β : Type} (value : α) (next : α → Except ε β) :
    (Except.ok value >>= next) = next value := rfl

theorem exists_of_bind_eq_ok {ε α β : Type} {first : Except ε α} {next : α → Except ε β} {value : β}
    (h : (first >>= next) = .ok value) : ∃ found, first = .ok found ∧ next found = .ok value := by
  cases first with
  | error => cases h
  | ok found => exact ⟨found, rfl, h⟩

end ByteMachine
