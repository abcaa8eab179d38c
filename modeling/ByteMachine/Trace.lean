import ByteMachine.Register

/-!
# Trace lines

The state of a machine before a step, as far as one line shows it: the program
counter, the three cells from it on, and all registers.
-/

namespace ByteMachine

open Numeral

structure TraceLine where
  pc : Nat
  /-- The cells from `pc` on; outside of memory there are none. -/
  cells : Vector (Option UInt8) 3
  registers : Registers
deriving DecidableEq, Repr

namespace TraceLine

/-- A cell as two hexadecimal digits, or as dashes if it is outside of memory. -/
def cellText : Option UInt8 → String
  | some byte => hexByte byte
  | none => "--"

def text (line : TraceLine) : String :=
  "TRACE: " ++ hex 2 line.pc ++ " | " ++ " ".intercalate (line.cells.toList.map cellText)
    ++ " | " ++ " ".intercalate (line.registers.toList.map hexByte)

end TraceLine

end ByteMachine
