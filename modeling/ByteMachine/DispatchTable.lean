import ByteMachine.Handler

/-!
# Dispatch tables

A table with one optional entry for each of the 256 bytes. Entries are
registered under instructions, so a byte that encodes none never has one. A
later registration replaces an earlier one.
-/

namespace ByteMachine

structure DispatchTable (α : Type) where
  entries : Vector (Option α) 256

namespace DispatchTable

variable {α : Type}

def empty : DispatchTable α :=
  ⟨Vector.replicate 256 none⟩

def get (table : DispatchTable α) (byte : UInt8) : Option α :=
  have := byte.toNat_lt
  table.entries[byte.toNat]

def register (table : DispatchTable α) (opcode : Opcode) (entry : α) : DispatchTable α :=
  ⟨table.entries.set opcode.encode.toNat (some entry) opcode.encode.toNat_lt⟩

/-- The table with `entry opcode` registered under every instruction. -/
def full (entry : Opcode → α) : DispatchTable α :=
  Opcode.all.foldl (fun table opcode => table.register opcode (entry opcode)) empty

/-- The table that the machine dispatches through. -/
def standard : DispatchTable Handler :=
  full Opcode.handler

/-! ## Entries after registrations -/

theorem get_empty (byte : UInt8) : (empty : DispatchTable α).get byte = none := by
  simp [get, empty]

theorem get_register (table : DispatchTable α) (opcode : Opcode) (entry : α) (byte : UInt8) :
    (table.register opcode entry).get byte =
      if opcode.encode = byte then some entry else table.get byte := by
  simp [get, register, Vector.getElem_set, UInt8.toNat_inj]

theorem get_foldl_register (entry : Opcode → α) (opcodes : List Opcode) (table : DispatchTable α)
    (byte : UInt8) :
    (opcodes.foldl (fun table opcode => table.register opcode (entry opcode)) table).get byte =
      ((opcodes.find? fun opcode => opcode.encode == byte).map entry).or (table.get byte) := by
  induction opcodes generalizing table with
  | nil => simp
  | cons opcode rest ih =>
    rw [List.foldl_cons, ih, get_register, List.find?_cons]
    by_cases h : opcode.encode = byte
    · cases found : rest.find? fun opcode => opcode.encode == byte with
      | none => simp [h]
      | some other =>
        have same : other.encode = byte := by simpa using List.find?_some found
        simp [h, Opcode.encode_injective (same.trans h.symm)]
    · simp [h, beq_eq_false_iff_ne.mpr h]

/-- A full table has an entry for exactly the bytes that encode an instruction. -/
theorem get_full (entry : Opcode → α) (byte : UInt8) :
    (full entry).get byte = (Opcode.decode? byte).map entry := by
  rw [full, get_foldl_register, get_empty, Option.or_none, Opcode.find?_all]

/-! ## Entries under instructions -/

/-- Only bytes that encode an instruction have an entry. -/
def UnderOpcodes (table : DispatchTable α) : Prop :=
  ∀ byte entry, table.get byte = some entry → ∃ opcode, Opcode.encode opcode = byte

theorem underOpcodes_empty : (empty : DispatchTable α).UnderOpcodes := by
  intro byte entry found
  rw [get_empty] at found
  cases found

theorem underOpcodes_full (entry : Opcode → α) : (full entry).UnderOpcodes := by
  intro byte other found
  rw [get_full] at found
  obtain ⟨opcode, decoded, -⟩ := Option.map_eq_some_iff.mp found
  exact ⟨opcode, Opcode.encode_eq_of_decode? decoded⟩

namespace UnderOpcodes

variable {table : DispatchTable α} {byte : UInt8} {entry : α}

theorem register (under : table.UnderOpcodes) (opcode : Opcode) (entry : α) :
    (table.register opcode entry).UnderOpcodes := by
  intro byte other found
  rw [get_register] at found
  split at found
  · rename_i same
    exact ⟨opcode, same⟩
  · exact under byte other found

theorem get_eq_none (under : table.UnderOpcodes) (unknown : Opcode.decode? byte = none) :
    table.get byte = none := by
  rw [Option.eq_none_iff_forall_ne_some]
  intro entry found
  obtain ⟨opcode, same⟩ := under byte entry found
  exact Opcode.decode?_eq_none_iff.mp unknown opcode same

/-- No entry stands under a byte that asks for three operands. -/
theorem operandCount_le_two (under : table.UnderOpcodes) (found : table.get byte = some entry) :
    operandCount byte ≤ 2 := by
  obtain ⟨opcode, rfl⟩ := under byte entry found
  exact opcode.operandCount_le_two

end UnderOpcodes

end DispatchTable

end ByteMachine
