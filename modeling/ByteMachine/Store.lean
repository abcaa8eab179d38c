import ByteMachine.Memory
import ByteMachine.Register

/-!
# Stores

Registers and memory together: all that the instructions of a program compute
with.
-/

namespace ByteMachine

/-- What instructions work on. -/
structure Store where
  registers : Registers
  memory : Memory
deriving DecidableEq, Repr

namespace Store

def initial : Store :=
  ⟨.initial, .blank⟩

def sp (store : Store) : UInt8 :=
  store.registers.get .sp

def setRegister (store : Store) (register : Register) (value : UInt8) : Store :=
  { store with registers := store.registers.set register value }

/-- The store with the value of its stack pointer replaced. -/
def setSp (store : Store) (value : UInt8) : Store :=
  store.setRegister .sp value

/-- The store with the cell at `address` replaced. -/
def setCell (store : Store) (address value : UInt8) : Store :=
  { store with memory := store.memory.set address value }

/-! ## Reads after writes -/

theorem sp_setSp (store : Store) (value : UInt8) : (store.setSp value).sp = value :=
  store.registers.get_set_same .sp value

theorem get_setSp_sp (store : Store) (value : UInt8) :
    (store.setSp value).registers.get .sp = value :=
  store.sp_setSp value

theorem setSp_setRegister_sp (store : Store) (old new : UInt8) :
    (store.setRegister .sp old).setSp new = store.setSp new := by
  simp only [setSp, setRegister, Registers.set_set]

theorem get_setSp_other (store : Store) {register : Register} (h : register ≠ .sp)
    (value : UInt8) : (store.setSp value).registers.get register = store.registers.get register :=
  store.registers.get_set_other h.symm value

end Store

end ByteMachine
