import Mathlib.Logic.Relation
import ByteMachine.Proofs.Atomicity

/-!
# Bounds of the program counter

How far the program counter can get, whatever is done with a machine. Nothing
checks it: a step adds the length of the instruction that it carried out. What
keeps it in bounds is that the operands were fetched before, and that no
instruction has more than two. So it is at most the address right behind memory
(`PcGrows.le`), that address is the only one that can be missed, and all sums of
the program counter and an offset are small (`obtainable_bounds`).
-/

namespace ByteMachine.Machine

/-! ## Operations -/

/-- One operation, with any sink and whether it fails or not, makes `after` of
`machine`. Handlers can be called from any dispatch table, with any operands and
in any state of the machine. -/
inductive Operation (machine : Machine) : (after : Machine) → Prop
  | load (program : List UInt8) (sink : Sink) :
      Operation machine (machine.load program sink).machine
  | step (sink : Sink) : Operation machine (machine.step sink).machine
  | run (sink : Sink) : Operation machine (machine.run sink).machine
  | runWith (program : List UInt8) (sink : Sink) :
      Operation machine (machine.runWith program sink).machine
  | call {table : DispatchTable Handler} {byte : UInt8} {handler : Handler}
      (built : table.Built) (entry : table.get byte = some handler) (a b : UInt8) (sink : Sink) :
      Operation machine (machine.perform handler a b sink).machine

/-- Operations one after the other. -/
abbrev Operations : Machine → Machine → Prop :=
  Relation.ReflTransGen Operation

/-- Operations can make this of a new machine. -/
def Obtainable (machine : Machine) : Prop :=
  ∃ tracing : Bool, Operations { tracing } machine

variable {machine after : Machine} {sink : Sink} {address : Nat}

/-! ## The program counter -/

/-- The program counter of `after` is not below that of `machine`, and in bounds
if that one is. -/
structure PcGrows (machine after : Machine) : Prop where
  mono : machine.pc ≤ after.pc
  le : machine.pc ≤ 256 → after.pc ≤ 256

namespace PcGrows

theorem of_eq (same : after.pc = machine.pc) : PcGrows machine after := by
  refine ⟨?_, ?_⟩
  · omega
  · omega

theorem trans {a b c : Machine} (first : PcGrows a b) (second : PcGrows b c) : PcGrows a c :=
  ⟨Nat.le_trans first.mono second.mono, fun bounded => second.le (first.le bounded)⟩

theorem step (machine : Machine) (sink : Sink) : PcGrows machine (machine.step sink).machine := by
  cases status : machine.status with
  | halted | faulted =>
    apply of_eq
    unfold Machine.step
    rw [status]
  | running =>
    have case := step_case status sink
    generalize machine.step sink = outcome at case ⊢
    cases case with
    | unfetched | refused | unprinted | halt => exact of_eq rfl
    | next holds =>
      -- a whole instruction ends in memory, so the next one begins at 256 at most
      have whole := holds.lt
      refine ⟨?_, fun _ => ?_⟩
      · dsimp only
        omega
      · dsimp only
        omega

theorem moment (machine : Machine) (sink : Sink) (n : Nat) :
    PcGrows machine (machine.moment sink n).1 := by
  cases n with
  | zero => exact of_eq rfl
  | succ n => exact rel_stepAt PcGrows (fun _ _ _ => trans) step machine sink n

theorem run (machine : Machine) (sink : Sink) : PcGrows machine (machine.run sink).machine :=
  rel_run PcGrows (fun _ _ _ => trans) step machine sink

theorem load (program : List UInt8) (machine : Machine) (sink : Sink) :
    PcGrows machine (machine.load program sink).machine := by
  apply of_eq
  unfold Machine.load
  split
  · rfl
  · rfl

theorem runWith (program : List UInt8) (machine : Machine) (sink : Sink) :
    PcGrows machine (machine.runWith program sink).machine := by
  have loading := load program machine sink
  unfold Machine.runWith
  dsimp only
  split
  · exact loading.trans (run _ _)
  · exact loading

theorem perform (opcode : Opcode) (a b : UInt8) (machine : Machine) (sink : Sink) :
    PcGrows machine (machine.perform opcode.handler a b sink).machine := by
  rw [perform_handler]
  apply of_eq
  cases opcode.effect a b machine.store with
  | error fault => rfl
  | ok effect =>
    unfold Effect.settle Effect.apply
    dsimp only
    split
    · rfl
    · rfl

end PcGrows

theorem Operation.pcGrows (operation : Operation machine after) : PcGrows machine after := by
  cases operation with
  | load program sink => exact .load program machine sink
  | step sink => exact .step machine sink
  | run sink => exact .run machine sink
  | runWith program sink => exact .runWith program machine sink
  | call built entry a b sink =>
    obtain ⟨opcode, rfl⟩ := built.exists_opcode entry
    exact .perform opcode a b machine sink

theorem Operations.pcGrows (operations : Operations machine after) : PcGrows machine after := by
  induction operations with
  | refl => exact .of_eq rfl
  | tail _ operation ih => exact ih.trans operation.pcGrows

theorem Obtainable.pc_le (obtainable : machine.Obtainable) : machine.pc ≤ 256 := by
  obtain ⟨tracing, operations⟩ := obtainable
  exact operations.pcGrows.le (Nat.zero_le _)

/-! ## Addresses that are missed -/

theorem fetch_missed (bounded : machine.pc ≤ 256)
    (missed : machine.fetch = .error (.addressOutOfBounds address)) : address = 256 := by
  rcases machine.fetch_cases with outside | ⟨byte, here, unknown⟩ | ⟨opcode, here, cut⟩ |
    ⟨opcode, a, b, holds⟩
  · rw [fetch_of_ge outside] at missed
    cases missed
    exact Nat.le_antisymm bounded outside
  · rw [fetch_of_unknown here unknown] at missed
    cases missed
  · rw [fetch_of_cut_off here cut] at missed
    cases missed
    rfl
  · rw [fetch_of_holds holds] at missed
    cases missed

/-- An instruction refuses no address: the stack pointer is a byte, and so always
the address of a cell. -/
theorem effect_not_missed (opcode : Opcode) (a b : UInt8) (store : Store) (address : Nat) :
    opcode.effect a b store ≠ .error (.addressOutOfBounds address) := by
  intro missed
  rcases (row_iff.mpr missed).refusal with ⟨byte, same⟩ | same
  · cases same
  · cases same

theorem perform_not_missed (opcode : Opcode) (a b : UInt8) (machine : Machine) (sink : Sink)
    (address : Nat) :
    (machine.perform opcode.handler a b sink).result ≠ .error (.addressOutOfBounds address) := by
  rw [perform_handler]
  cases answer : opcode.effect a b machine.store with
  | error fault =>
    rintro ⟨⟩
    exact effect_not_missed opcode a b machine.store address answer
  | ok effect =>
    unfold Effect.settle Effect.apply
    dsimp only
    split
    · nofun
    · nofun

theorem step_missed (bounded : machine.pc ≤ 256)
    (missed : (machine.step sink).result = .error (.addressOutOfBounds address)) :
    address = 256 := by
  cases status : machine.status with
  | halted | faulted =>
    unfold step at missed
    rw [status] at missed
    cases missed
  | running =>
    have case := step_case status sink
    generalize machine.step sink = outcome at case missed
    cases case with
    | unfetched none =>
      cases missed
      exact fetch_missed bounded none
    | refused _ refusal =>
      cases missed
      exact absurd refusal (effect_not_missed _ _ _ _ _)
    | unprinted | next | halt => cases missed

theorem run_missed (bounded : machine.pc ≤ 256)
    (missed : (machine.run sink).result = .error (.addressOutOfBounds address)) :
    address = 256 := by
  obtain ⟨n, reaches, failing, -, -⟩ := exists_failing_step missed
  exact step_missed (reaches.pc_le bounded) failing

theorem runWith_missed {program : List UInt8} (bounded : machine.pc ≤ 256)
    (missed : (machine.runWith program sink).result = .error (.addressOutOfBounds address)) :
    address = 256 := by
  have loading := PcGrows.load program machine sink
  by_cases large : Memory.capacity < program.length
  · rw [runWith_of_large large] at missed
    cases missed
  · rw [runWith_of_fits large] at missed
    exact run_missed (loading.le bounded) missed

/-! ## Sums -/

/-- The sums of the program counter and an offset that are formed in a step and
in a trace line. -/
inductive FormsSum (machine : Machine) : (sum : Nat) → Prop
  /-- The address of operand number `i` of an instruction, as far as it may be
  asked for, in memory or not. -/
  | operand {byte : UInt8} {handler : Handler} {i : Nat}
      (here : machine.store.memory.read machine.pc = .ok byte)
      (entry : DispatchTable.standard.get byte = some handler) (asked : i < operandCount byte) :
      FormsSum machine (machine.pc + 1 + i)
  /-- The address behind an instruction. -/
  | behind {byte : UInt8} {handler : Handler}
      (here : machine.store.memory.read machine.pc = .ok byte)
      (entry : DispatchTable.standard.get byte = some handler) :
      FormsSum machine (machine.pc + operandCount byte + 1)
  /-- The address of a cell that a trace line shows, in memory or not. -/
  | shown (offset : Fin 3) : FormsSum machine (machine.pc + offset)

theorem FormsSum.le {sum : Nat} (forms : machine.FormsSum sum) (bounded : machine.pc ≤ 256) :
    sum ≤ 258 := by
  cases forms with
  | operand here entry asked =>
    have inside := Memory.lt_of_cell? (Memory.read_eq_ok_iff.mp here)
    have few := (DispatchTable.underOpcodes_full Opcode.handler).operandCount_le_two entry
    omega
  | behind here entry =>
    have inside := Memory.lt_of_cell? (Memory.read_eq_ok_iff.mp here)
    have few := (DispatchTable.underOpcodes_full Opcode.handler).operandCount_le_two entry
    omega
  | shown offset => omega

/-- **The program counter stays in bounds.** Of every machine that operations make
of a new one, whatever they are and whether they fail or not: the program counter
is at most one behind memory, and no operations after that bring it back; the
only address that a step or a run can miss is the one right behind memory; no
handler misses any; and no sum that is formed with the program counter, now or in
the course of a run, exceeds that address by more than two. -/
theorem obtainable_bounds (obtainable : machine.Obtainable) :
    machine.pc ≤ 256 ∧
    (∀ after, Operations machine after → machine.pc ≤ after.pc) ∧
    (∀ (sink : Sink) (address : Nat),
      ((machine.step sink).result = .error (.addressOutOfBounds address) → address = 256) ∧
      ((machine.run sink).result = .error (.addressOutOfBounds address) → address = 256) ∧
      ∀ program, (machine.runWith program sink).result = .error (.addressOutOfBounds address) →
        address = 256) ∧
    (∀ (opcode : Opcode) (a b : UInt8) (sink : Sink) (address : Nat),
      (machine.perform opcode.handler a b sink).result ≠ .error (.addressOutOfBounds address)) ∧
    ∀ (sink : Sink) (n sum : Nat), (machine.moment sink n).1.FormsSum sum → sum ≤ 258 := by
  have bounded := obtainable.pc_le
  refine ⟨bounded, ?_, ?_, ?_, ?_⟩
  · intro after operations
    exact operations.pcGrows.mono
  · intro sink address
    exact ⟨step_missed bounded, run_missed bounded, fun program => runWith_missed bounded⟩
  · intro opcode a b sink address
    exact perform_not_missed opcode a b machine sink address
  · intro sink n sum forms
    exact forms.le ((PcGrows.moment machine sink n).le bounded)

/-- Behind an INC, a PUSH is called that is not in the program, and then another
program is run over the first one. -/
theorem obtainable_bounds_called_push :
    let stepped := ((initial.load [0x65, 0x00, 0x01] .unlimited).machine.step .unlimited).machine
    let called := (stepped.perform Handler.push 0 0 .unlimited).machine
    stepped.pc ≤ 256 ∧ stepped.pc ≤ (called.runWith [0x45, 0x00, 0x01] .unlimited).machine.pc := by
  intro stepped called
  have obtainable : stepped.Obtainable :=
    ⟨false, .tail (.single (.load [0x65, 0x00, 0x01] .unlimited)) (.step .unlimited)⟩
  have entry : DispatchTable.standard.get 0x45 = some Handler.push := rfl
  have operations : Operations stepped (called.runWith [0x45, 0x00, 0x01] .unlimited).machine :=
    .tail (.single (.call .standard entry 0 0 .unlimited)) (.runWith _ .unlimited)
  obtain ⟨bounded, grows, -⟩ := obtainable_bounds obtainable
  exact ⟨bounded, grows _ operations⟩

end ByteMachine.Machine
