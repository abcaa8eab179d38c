import ByteMachine.Fault

/-!
# Registers

Eight registers of one byte each. The last one is the stack pointer; it is an
ordinary register in every other respect. An operand byte names a register only
if it is below eight.
-/

namespace ByteMachine

abbrev Register := Fin 8

namespace Register

/-- The register that holds the stack pointer. -/
def sp : Register := 7

/-- The register that an operand byte names. -/
def ofByte (byte : UInt8) : Except Fault Register :=
  if h : byte.toNat < 8 then .ok ⟨byte.toNat, h⟩ else .error (.invalidRegister byte)

theorem ofByte_eq_ok_iff {byte : UInt8} {register : Register} :
    ofByte byte = .ok register ↔ byte.toNat = register.val := by
  unfold ofByte
  split
  · rw [Except.ok.injEq, Fin.ext_iff]
  · rename_i large
    constructor
    · intro h
      cases h
    · intro h
      exact absurd (h ▸ register.isLt) large

theorem ofByte_eq_error_iff {byte : UInt8} {fault : Fault} :
    ofByte byte = .error fault ↔ 8 ≤ byte.toNat ∧ fault = .invalidRegister byte := by
  unfold ofByte
  split
  · rename_i small
    constructor
    · intro h
      cases h
    · intro h
      omega
  · rename_i large
    rw [Except.error.injEq, eq_comm]
    exact ⟨fun h => ⟨Nat.le_of_not_lt large, h⟩, fun h => h.2⟩

/-- Seven is the operand byte that names the stack pointer. -/
theorem eq_seven_iff {byte : UInt8} {register : Register} (h : ofByte byte = .ok register) :
    byte = 7 ↔ register = sp := by
  rw [ofByte_eq_ok_iff] at h
  rw [← UInt8.toNat_inj, Fin.ext_iff, h]
  rfl

end Register

structure Registers where
  values : Vector UInt8 8
deriving DecidableEq, Repr

namespace Registers

def get (registers : Registers) (register : Register) : UInt8 :=
  registers.values[register]

def set (registers : Registers) (register : Register) (value : UInt8) : Registers :=
  ⟨registers.values.set register value⟩

/-- The stack of a new machine begins here and grows down; the cells above are not part of it. -/
def stackStart : UInt8 := 0xF4

/-- Zeros, and an empty stack. -/
def initial : Registers :=
  set ⟨Vector.replicate 8 0⟩ .sp stackStart

def toList (registers : Registers) : List UInt8 :=
  registers.values.toList

/-! ## Reads after writes -/

theorem get_set (registers : Registers) (r s : Register) (value : UInt8) :
    (registers.set r value).get s = if r = s then value else registers.get s := by
  simp [get, set, Vector.getElem_set, Fin.ext_iff]

theorem get_set_same (registers : Registers) (r : Register) (value : UInt8) :
    (registers.set r value).get r = value := by
  simp [get_set]

theorem get_set_other (registers : Registers) {r s : Register} (h : r ≠ s) (value : UInt8) :
    (registers.set r value).get s = registers.get s := by
  simp [get_set, h]

theorem eq_of_get_eq {registers others : Registers}
    (same : ∀ register, registers.get register = others.get register) : registers = others := by
  rw [Registers.mk.injEq]
  apply Vector.ext
  intro i inside
  exact same ⟨i, inside⟩

/-- A later write replaces an earlier one. -/
theorem set_set (registers : Registers) (r : Register) (old new : UInt8) :
    (registers.set r old).set r new = registers.set r new := by
  simp [set]

end Registers

end ByteMachine
