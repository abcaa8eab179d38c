import ByteMachine.Machine.Step
import ByteMachine.Proofs.LastWriter

/-!
# Tables after registrations

What a dispatch table holds after calls that register handlers, whichever and how many they
are: under a byte the handler of the last call for it, or what the table began with
(`DispatchTable.get_registerAll_iff`). All entries stand under instructions, and none of these
has more than two operands, so a cycle that dispatches through the table moves over just the
operands that it has fetched (`DispatchTable.registering_keeps_invariant`).
-/

namespace ByteMachine

namespace DispatchTable

/-! ## Registrations -/

/-- A call that registers `entry` under `opcode`. -/
structure Registration (α : Type) where
  opcode : Opcode
  entry : α

variable {α : Type} {table : DispatchTable α} {calls : List (Registration α)} {byte : UInt8}
  {entry : Option α}

/-- The table after calls, one after the other. -/
def registerAll (table : DispatchTable α) (calls : List (Registration α)) : DispatchTable α :=
  calls.foldl (fun table call => table.register call.opcode call.entry) table

/-- The entry under `byte` is that of the last call for it, or it is still the first one. -/
inductive LastEntry (calls : List (Registration α)) (byte : UInt8) (first : Option α) :
    (entry : Option α) → Prop
  | registered (before later : List (Registration α)) {call : Registration α}
      (split : calls = before ++ call :: later) (under : call.opcode.encode = byte)
      (last : ∀ other ∈ later, other.opcode.encode ≠ byte) :
      LastEntry calls byte first (some call.entry)
  | kept (spared : ∀ call ∈ calls, call.opcode.encode ≠ byte) : LastEntry calls byte first first

theorem get_registerAll_of_spared (table : DispatchTable α)
    (spared : ∀ call ∈ calls, call.opcode.encode ≠ byte) :
    (table.registerAll calls).get byte = table.get byte := by
  induction calls generalizing table with
  | nil => rfl
  | cons call calls ih =>
    have other := spared call List.mem_cons_self
    have rest := ih (table.register call.opcode call.entry) fun later h =>
      spared later (List.mem_cons_of_mem _ h)
    rwa [get_register, if_neg other] at rest

theorem LastEntry.get_eq (last : LastEntry calls byte (table.get byte) entry) :
    (table.registerAll calls).get byte = entry := by
  cases last with
  | registered before later split under last =>
    rw [registerAll, split, List.foldl_append, List.foldl_cons]
    refine (get_registerAll_of_spared _ last).trans ?_
    rw [get_register, if_pos under]
  | kept spared => exact get_registerAll_of_spared table spared

theorem exists_lastEntry (calls : List (Registration α)) (byte : UInt8) (first : Option α) :
    ∃ entry, LastEntry calls byte first entry := by
  rcases exists_last_or_forall_not (fun call : Registration α => call.opcode.encode = byte) calls
    with ⟨before, call, later, split, under, last⟩ | spared
  · exact ⟨some call.entry, .registered before later split under last⟩
  · exact ⟨first, .kept spared⟩

theorem get_registerAll_iff :
    (table.registerAll calls).get byte = entry ↔ LastEntry calls byte (table.get byte) entry := by
  constructor
  · rintro rfl
    obtain ⟨entry, last⟩ := exists_lastEntry calls byte (table.get byte)
    rwa [last.get_eq]
  · exact LastEntry.get_eq

theorem UnderOpcodes.registerAll (under : table.UnderOpcodes) (calls : List (Registration α)) :
    (table.registerAll calls).UnderOpcodes := by
  induction calls generalizing table with
  | nil => exact under
  | cons call calls ih => exact ih (under.register call.opcode call.entry)

end DispatchTable

/-! ## Cycles -/

/-- The operand slots that are filled for an instruction of this length. There are two of them,
however many operands its byte asks for. -/
def Fetched.filled (fetched : Fetched) : List UInt8 :=
  [fetched.a, fetched.b].take (fetched.length - 1)

namespace Machine

variable {machine : Machine} {table : DispatchTable Handler} {fetched : Fetched}

/-- What was fetched are the bytes of an opcode and of the filled slots and no more; a slot that
is not filled holds zero. -/
structure FillsSlots (machine : Machine) (fetched : Fetched) : Prop where
  bytes : ∃ opcode, (machine.store.memory.toList.drop machine.pc).take fetched.length =
    Opcode.encode opcode :: fetched.filled
  length : fetched.length = fetched.filled.length + 1
  first : fetched.length ≤ 1 → fetched.a = 0
  second : fetched.length ≤ 2 → fetched.b = 0

theorem fillsSlots_of_holds {opcode : Opcode} (holds : machine.Holds opcode fetched.a fetched.b)
    (length : fetched.length = opcode.operandCount + 1) : machine.FillsSlots fetched := by
  have few := opcode.operandCount_le_two
  have filled : fetched.filled = [fetched.a, fetched.b].take opcode.operandCount := by
    rw [Fetched.filled, length, Nat.add_sub_cancel]
  refine ⟨⟨opcode, ?_⟩, ?_, fun short => ?_, fun short => ?_⟩
  · rw [filled, length, Memory.drop_toList holds.here, List.take_succ_cons]
    congr 1
    obtain none | one | two : opcode.operandCount = 0 ∨ opcode.operandCount = 1 ∨
        opcode.operandCount = 2 := by omega
    · rw [none, List.take_zero, List.take_zero]
    · rw [one, Memory.drop_toList (holds.first.cell?_eq (by omega))]
      rfl
    · rw [two, Memory.drop_toList (holds.first.cell?_eq (by omega)),
        Memory.drop_toList (holds.second.cell?_eq (by omega))]
      rfl
  · rw [filled, length, List.length_take]
    simp [few]
  · exact holds.first.eq_zero (by omega)
  · exact holds.second.eq_zero (by omega)

/-- A cycle moves on from where the handler leaves the program counter, by the length of what
was fetched, and only if the handler has the machine go on. -/
theorem pc_cycleThrough (fetch : machine.fetchThrough table = .ok fetched) (sink : Sink) :
    (machine.cycleThrough table sink).machine.pc =
      let called := machine.perform fetched.handler fetched.a fetched.b sink
      match called.result with
      | .ok .next => called.machine.pc + fetched.length
      | _ => called.machine.pc := by
  rw [cycleThrough_of_fetch fetch]
  unfold execute stop
  dsimp only
  split
  · rename_i goesOn
    rw [goesOn]
  · rename_i halts
    rw [halts]
  · rename_i fails
    rw [fails]

end Machine

namespace DispatchTable

/-! ## Tables of the machine -/

/-- The tables that registering starts from. -/
inductive Origin
  | empty
  | standard
deriving DecidableEq, Repr

namespace Origin

def table : Origin → DispatchTable Handler
  | empty => .empty
  | standard => .standard

/-- The handler that stands under a byte before anything is registered. -/
def handler? : Origin → UInt8 → Option Handler
  | empty, _ => none
  | standard, byte => (Opcode.decode? byte).map Opcode.handler

theorem get_table (origin : Origin) (byte : UInt8) :
    origin.table.get byte = origin.handler? byte := by
  cases origin with
  | empty => exact get_empty byte
  | standard => exact get_full Opcode.handler byte

theorem underOpcodes_table (origin : Origin) : origin.table.UnderOpcodes := by
  cases origin with
  | empty => exact underOpcodes_empty
  | standard => exact underOpcodes_full Opcode.handler

end Origin

/-- The table that calls make of the one that they start from. -/
def Origin.after (origin : Origin) (calls : List (Registration Handler)) : DispatchTable Handler :=
  origin.table.registerAll calls

/-- What holds of a table after `calls`, and of every cycle that dispatches through it. -/
structure Invariant (origin : Origin) (calls : List (Registration Handler)) : Prop where
  get_iff : ∀ byte entry, (origin.after calls).get byte = entry ↔
    LastEntry calls byte (origin.handler? byte) entry
  unknown : ∀ byte, Opcode.decode? byte = none → (origin.after calls).get byte = none
  known : ∀ byte handler, (origin.after calls).get byte = some handler →
    ∃ opcode, Opcode.decode? byte = some opcode ∧ operandCount byte < 3
  fills : ∀ (machine : Machine) (fetched : Fetched),
    machine.fetchThrough (origin.after calls) = .ok fetched → machine.FillsSlots fetched
  /-- The handler may have moved the program counter itself. -/
  moves : ∀ (machine : Machine) (fetched : Fetched) (sink : Sink),
    machine.fetchThrough (origin.after calls) = .ok fetched →
    (machine.cycleThrough (origin.after calls) sink).machine.pc =
      let called := machine.perform fetched.handler fetched.a fetched.b sink
      match called.result with
      | .ok .next => called.machine.pc + (fetched.filled.length + 1)
      | _ => called.machine.pc

/-- **Registering keeps the invariant of the table.** After any calls, of any handlers under any
instructions, on an empty table or the standard one: every byte has the handler of the last call
for it, or else what it had at the start, and no byte but those of instructions has one. So no
entry asks for three operands, and a cycle through the table fills as many operand slots as it
moves over. -/
theorem registering_keeps_invariant (origin : Origin) (calls : List (Registration Handler)) :
    Invariant origin calls := by
  have under : (origin.after calls).UnderOpcodes := origin.underOpcodes_table.registerAll calls
  have fills (machine : Machine) (fetched : Fetched)
      (fetch : machine.fetchThrough (origin.after calls) = .ok fetched) :
      machine.FillsSlots fetched := by
    obtain ⟨opcode, holds, length⟩ := Machine.holds_of_fetchThrough_eq_ok under fetch
    exact Machine.fillsSlots_of_holds holds length
  refine ⟨?_, ?_, ?_, fills, ?_⟩
  · intro byte entry
    rw [Origin.after, get_registerAll_iff, origin.get_table]
  · intro byte unknown
    exact under.get_eq_none unknown
  · intro byte handler found
    obtain ⟨opcode, same⟩ := under byte handler found
    have few := under.operandCount_le_two found
    exact ⟨opcode, Opcode.decode?_eq_some_iff.mpr same, Nat.lt_succ_of_le few⟩
  · intro machine fetched sink fetch
    rw [Machine.pc_cycleThrough fetch, ← (fills machine fetched fetch).length]

/-- LDI is registered twice, the second time with the handler of POP, which then takes over an
LDI that ends at the last cell. -/
theorem registering_keeps_invariant_replaced_ldi :
    let calls : List (Registration Handler) :=
      [⟨.ldi, Handler.hlt⟩, ⟨.prn, Handler.push⟩, ⟨.ldi, Handler.pop⟩]
    let table := Origin.standard.after calls
    let machine : Machine :=
      { pc := 253, store := (Store.initial.setCell 253 0x82).setCell 255 9 }
    table.get 0x82 = some Handler.pop ∧ table.get 0xC2 = none ∧
      (machine.cycleThrough table .unlimited).machine.pc = 256 := by
  intro calls table machine
  obtain ⟨get_iff, unknown, -, -, moves⟩ := registering_keeps_invariant .standard calls
  have replaced : table.get 0x82 = some Handler.pop :=
    (get_iff 0x82 _).mpr (.registered [_, _] [] rfl rfl nofun)
  refine ⟨replaced, unknown 0xC2 (by decide), ?_⟩
  have here : machine.store.memory.cell? machine.pc = some 0x82 := rfl
  have fetch : machine.fetchThrough table =
      .ok { handler := Handler.pop, a := 0, b := 9, length := 3 } :=
    (Machine.fetchThrough_of_entry here replaced).trans rfl
  rw [moves machine _ .unlimited fetch]
  rfl

end DispatchTable

end ByteMachine
