import ByteMachine.DispatchTable

/-!
# Fetching

The instruction at the program counter, read from memory with the operands that
it asks for. What can stand there is one of four things: nothing, for memory
ends before; a byte that is no instruction; an instruction that memory cuts off;
or a whole instruction.
-/

namespace ByteMachine

/-- An instruction as fetched from memory, and its length. -/
structure Fetched where
  handler : Handler
  a : UInt8 := 0
  b : UInt8 := 0
  length : Nat

namespace Machine

/-- The operand at `offset` from the program counter, or zero for an instruction
of only `count` operands. -/
def fetchOperand (machine : Machine) (count offset : Nat) : Except Fault UInt8 :=
  if offset ≤ count then machine.store.memory.read (machine.pc + offset) else .ok 0

/-- The instruction at the program counter, with the handler that `table` has for
it. Only operands that it asks for are read, so a short instruction may end at the
last cell. -/
def fetchThrough (table : DispatchTable Handler) (machine : Machine) : Except Fault Fetched := do
  let byte ← machine.store.memory.read machine.pc
  match table.get byte with
  | some handler =>
    let count := operandCount byte
    let a ← machine.fetchOperand count 1
    let b ← machine.fetchOperand count 2
    return { handler, a, b, length := count + 1 }
  | none => .error (.unknownInstruction machine.pc byte)

/-- The instruction at the program counter, with its own handler. -/
def fetch (machine : Machine) : Except Fault Fetched :=
  machine.fetchThrough .standard

/-! ## What stands at the program counter -/

/-- The operand `offset` cells behind the program counter is `value`; the
operands that `opcode` does not have are zero. -/
def HoldsOperand (machine : Machine) (opcode : Opcode) (offset : Nat) (value : UInt8) : Prop :=
  if offset ≤ opcode.operandCount then
    machine.store.memory.cell? (machine.pc + offset) = some value
  else value = 0

/-- A whole instruction stands at the program counter. -/
structure Holds (machine : Machine) (opcode : Opcode) (a b : UInt8) : Prop where
  here : machine.store.memory.cell? machine.pc = some opcode.encode
  first : machine.HoldsOperand opcode 1 a
  second : machine.HoldsOperand opcode 2 b

variable {machine : Machine} {opcode : Opcode} {a b : UInt8}

theorem holdsOperand_iff {offset : Nat} {value : UInt8} :
    machine.HoldsOperand opcode offset value ↔
      machine.fetchOperand opcode.operandCount offset = .ok value := by
  unfold HoldsOperand fetchOperand
  split
  · exact Memory.read_eq_ok_iff.symm
  · rw [Except.ok.injEq, eq_comm]

theorem HoldsOperand.cell?_eq {offset : Nat} {value : UInt8}
    (h : machine.HoldsOperand opcode offset value) (asked : offset ≤ opcode.operandCount) :
    machine.store.memory.cell? (machine.pc + offset) = some value := by
  unfold HoldsOperand at h
  rwa [if_pos asked] at h

theorem HoldsOperand.eq_zero {offset : Nat} {value : UInt8}
    (h : machine.HoldsOperand opcode offset value) (missing : opcode.operandCount < offset) :
    value = 0 := by
  unfold HoldsOperand at h
  rwa [if_neg (Nat.not_le.mpr missing)] at h

theorem HoldsOperand.lt {offset : Nat} {value : UInt8}
    (h : machine.HoldsOperand opcode offset value) (asked : offset ≤ opcode.operandCount) :
    machine.pc + offset < 256 :=
  Memory.lt_of_cell? (h.cell?_eq asked)

theorem exists_holdsOperand {offset : Nat}
    (h : offset ≤ opcode.operandCount → machine.pc + offset < 256) :
    ∃ value, machine.HoldsOperand opcode offset value := by
  unfold HoldsOperand
  split
  · rename_i asked
    exact Memory.exists_cell? _ (h asked)
  · exact ⟨0, rfl⟩

/-- A whole instruction ends in memory. -/
theorem Holds.lt (h : machine.Holds opcode a b) :
    machine.pc + opcode.operandCount < 256 := by
  have start := Memory.lt_of_cell? h.here
  have few := opcode.operandCount_le_two
  by_cases two : 2 ≤ opcode.operandCount
  · have := h.second.lt two
    omega
  · by_cases one : 1 ≤ opcode.operandCount
    · have := h.first.lt one
      omega
    · omega

/-- No two instructions stand at one place. -/
theorem Holds.unique {opcode' : Opcode} {a' b' : UInt8} (h : machine.Holds opcode a b)
    (h' : machine.Holds opcode' a' b') : opcode = opcode' ∧ a = a' ∧ b = b' := by
  have same : opcode = opcode' :=
    Opcode.encode_injective (Option.some.inj (h.here.symm.trans h'.here))
  subst same
  have first := (holdsOperand_iff.mp h.first).symm.trans (holdsOperand_iff.mp h'.first)
  have second := (holdsOperand_iff.mp h.second).symm.trans (holdsOperand_iff.mp h'.second)
  exact ⟨rfl, Except.ok.inj first, Except.ok.inj second⟩

/-- The four things that a program counter can be at. -/
theorem fetch_cases (machine : Machine) :
    256 ≤ machine.pc ∨
      (∃ byte, machine.store.memory.cell? machine.pc = some byte ∧ Opcode.decode? byte = none) ∨
      (∃ opcode, machine.store.memory.cell? machine.pc = some (Opcode.encode opcode) ∧
        256 ≤ machine.pc + opcode.operandCount) ∨
      ∃ opcode a b, machine.Holds opcode a b := by
  by_cases inside : machine.pc < 256
  · obtain ⟨byte, here⟩ := machine.store.memory.exists_cell? inside
    cases decoded : Opcode.decode? byte with
    | none => exact .inr (.inl ⟨byte, here, decoded⟩)
    | some opcode =>
      obtain rfl := Opcode.encode_eq_of_decode? decoded
      by_cases whole : machine.pc + opcode.operandCount < 256
      · obtain ⟨a, first⟩ : ∃ a, machine.HoldsOperand opcode 1 a :=
          exists_holdsOperand fun _ => by omega
        obtain ⟨b, second⟩ : ∃ b, machine.HoldsOperand opcode 2 b :=
          exists_holdsOperand fun _ => by omega
        exact .inr (.inr (.inr ⟨opcode, a, b, here, first, second⟩))
      · exact .inr (.inr (.inl ⟨opcode, here, Nat.le_of_not_lt whole⟩))
  · exact .inl (Nat.le_of_not_lt inside)

/-! ## What is fetched in each case -/

theorem fetch_of_ge (h : 256 ≤ machine.pc) :
    machine.fetch = .error (.addressOutOfBounds machine.pc) := by
  unfold fetch fetchThrough
  rw [Memory.read_eq_error h]
  rfl

theorem fetch_of_unknown {byte : UInt8} (here : machine.store.memory.cell? machine.pc = some byte)
    (unknown : Opcode.decode? byte = none) :
    machine.fetch = .error (.unknownInstruction machine.pc byte) := by
  have empty : DispatchTable.standard.get byte = none :=
    (DispatchTable.underOpcodes_full Opcode.handler).get_eq_none unknown
  unfold fetch fetchThrough
  rw [Memory.read_eq_ok_iff.mpr here, ok_bind, empty]

/-- A byte with an entry leaves only its operands to be fetched. -/
theorem fetchThrough_of_entry {table : DispatchTable Handler} {byte : UInt8} {handler : Handler}
    (here : machine.store.memory.cell? machine.pc = some byte)
    (entry : table.get byte = some handler) :
    machine.fetchThrough table = (do
      let a ← machine.fetchOperand (operandCount byte) 1
      let b ← machine.fetchOperand (operandCount byte) 2
      return { handler, a, b, length := operandCount byte + 1 }) := by
  unfold fetchThrough
  rw [Memory.read_eq_ok_iff.mpr here, ok_bind, entry]

theorem fetch_of_opcode (here : machine.store.memory.cell? machine.pc = some opcode.encode) :
    machine.fetch = (do
      let a ← machine.fetchOperand opcode.operandCount 1
      let b ← machine.fetchOperand opcode.operandCount 2
      return { handler := opcode.handler, a, b, length := opcode.operandCount + 1 }) := by
  have entry : DispatchTable.standard.get opcode.encode = some opcode.handler := by
    rw [DispatchTable.standard, DispatchTable.get_full, Opcode.decode?_encode]
    rfl
  exact fetchThrough_of_entry here entry

/-- Operands are fetched in order, so the address that is missed first is the
one right behind memory. -/
theorem fetch_of_cut_off (here : machine.store.memory.cell? machine.pc = some opcode.encode)
    (cut : 256 ≤ machine.pc + opcode.operandCount) :
    machine.fetch = .error (.addressOutOfBounds 256) := by
  have start := Memory.lt_of_cell? here
  have few := opcode.operandCount_le_two
  rw [fetch_of_opcode here]
  by_cases last : machine.pc = 255
  · have missed : machine.fetchOperand opcode.operandCount 1 = .error (.addressOutOfBounds 256) := by
      unfold fetchOperand
      rw [if_pos (by omega), last, Memory.read_eq_error (by omega)]
    rw [missed]
    rfl
  · obtain ⟨a, first⟩ : ∃ a, machine.HoldsOperand opcode 1 a :=
      exists_holdsOperand fun _ => by omega
    have missed : machine.fetchOperand opcode.operandCount 2 = .error (.addressOutOfBounds 256) := by
      have before : machine.pc + 2 = 256 := by omega
      unfold fetchOperand
      rw [if_pos (by omega), before, Memory.read_eq_error (Nat.le_refl _)]
    rw [holdsOperand_iff.mp first, ok_bind, missed]
    rfl

theorem fetch_of_holds (h : machine.Holds opcode a b) :
    machine.fetch =
      .ok { handler := opcode.handler, a, b, length := opcode.operandCount + 1 } := by
  rw [fetch_of_opcode h.here, holdsOperand_iff.mp h.first, ok_bind,
    holdsOperand_iff.mp h.second, ok_bind]
  rfl

theorem exists_of_fetchThrough_eq_ok {table : DispatchTable Handler} {fetched : Fetched}
    (h : machine.fetchThrough table = .ok fetched) :
    ∃ byte, machine.store.memory.cell? machine.pc = some byte ∧
      table.get byte = some fetched.handler ∧
      machine.fetchOperand (operandCount byte) 1 = .ok fetched.a ∧
      machine.fetchOperand (operandCount byte) 2 = .ok fetched.b ∧
      fetched.length = operandCount byte + 1 := by
  unfold fetchThrough at h
  obtain ⟨byte, here, h⟩ := exists_of_bind_eq_ok h
  cases entry : table.get byte with
  | none =>
    rw [entry] at h
    cases h
  | some handler =>
    rw [entry] at h
    obtain ⟨a, first, h⟩ := exists_of_bind_eq_ok h
    obtain ⟨b, second, h⟩ := exists_of_bind_eq_ok h
    cases h
    exact ⟨byte, Memory.read_eq_ok_iff.mp here, entry, first, second, rfl⟩

/-- Only a whole instruction is fetched, if entries stand under instructions only. -/
theorem holds_of_fetchThrough_eq_ok {table : DispatchTable Handler} (under : table.UnderOpcodes)
    {fetched : Fetched} (h : machine.fetchThrough table = .ok fetched) :
    ∃ opcode, machine.Holds opcode fetched.a fetched.b ∧
      fetched.length = opcode.operandCount + 1 := by
  obtain ⟨byte, here, entry, first, second, length⟩ := exists_of_fetchThrough_eq_ok h
  obtain ⟨opcode, rfl⟩ := under byte fetched.handler entry
  exact ⟨opcode, ⟨here, holdsOperand_iff.mpr first, holdsOperand_iff.mpr second⟩, length⟩

theorem holds_of_fetch_eq_ok {fetched : Fetched} (h : machine.fetch = .ok fetched) :
    ∃ opcode a b, machine.Holds opcode a b := by
  obtain ⟨opcode, holds, -⟩ :=
    holds_of_fetchThrough_eq_ok (DispatchTable.underOpcodes_full Opcode.handler) h
  exact ⟨opcode, _, _, holds⟩

/-- Fetching fails for the lack of a cell or of an instruction. -/
theorem fetch_eq_error {fault : Fault} (h : machine.fetch = .error fault) :
    (∃ address, fault = .addressOutOfBounds address) ∨
      ∃ byte, fault = .unknownInstruction machine.pc byte := by
  rcases machine.fetch_cases with outside | ⟨byte, here, unknown⟩ | ⟨opcode, here, cut⟩ |
    ⟨opcode, a, b, holds⟩
  · rw [fetch_of_ge outside] at h
    exact .inl ⟨_, (Except.error.inj h).symm⟩
  · rw [fetch_of_unknown here unknown] at h
    exact .inr ⟨_, (Except.error.inj h).symm⟩
  · rw [fetch_of_cut_off here cut] at h
    exact .inl ⟨_, (Except.error.inj h).symm⟩
  · rw [fetch_of_holds holds] at h
    cases h

end Machine

end ByteMachine
