import Mathlib.Control.Monad.Basic
import ByteMachine.Proofs.Termination

/-!
# Atomicity of failures

What is left when something fails. A handler that fails leaves the machine as it
was, although it works in place; only a line that the sink does not take in full
leaves a trace, in the output. A step that fails marks the machine besides, so a
run that fails leaves the machine as its last instruction found it. Loading a
program that is too large leaves everything as it was.
-/

namespace ByteMachine

/-! ## Tables and their handlers -/

namespace DispatchTable

/-- The tables of this library's handlers: those that one starts with, and what
becomes of them when handlers from tables are registered under other
instructions. Registering takes any function; handlers written elsewhere are left
out here, since nothing is known of what they do. -/
inductive Built : DispatchTable Handler → Prop
  | empty : Built .empty
  | standard : Built .standard
  | register {table source : DispatchTable Handler} {byte : UInt8} {handler : Handler}
      (opcode : Opcode) :
      Built table → Built source → source.get byte = some handler →
      Built (table.register opcode handler)

/-- Every entry is the handler of an instruction, if not of the one that it
stands under. -/
theorem Built.exists_opcode {table : DispatchTable Handler} (built : table.Built) {byte : UInt8}
    {handler : Handler} (entry : table.get byte = some handler) :
    ∃ opcode : Opcode, handler = opcode.handler := by
  induction built generalizing byte handler with
  | empty =>
    rw [get_empty] at entry
    cases entry
  | standard =>
    rw [DispatchTable.standard, get_full] at entry
    obtain ⟨opcode, -, eq⟩ := Option.map_eq_some_iff.mp entry
    exact ⟨opcode, eq.symm⟩
  | register opcode _ _ found ih ihSource =>
    rw [get_register] at entry
    split at entry
    · cases entry
      exact ihSource found
    · exact ih entry

end DispatchTable

/-! ## Handlers -/

/-- Between `sink` and `after` a part of the line that prints the register `a`
was taken, and never the whole line. -/
def Machine.LeavesPartOfLine (machine : Machine) (a : UInt8) (sink after : Sink) : Prop :=
  ∃ value taken left, machine.register a = .ok value ∧ left ≠ [] ∧
    Numeral.decimalDigits value.toNat ++ ['\n'] = taken ++ left ∧
    after.text = sink.text ++ taken

/-- A handler that fails changes nothing but the output, and that only if it
prints. -/
def Handler.FailsAtomically (handler : Handler) : Prop :=
  ∀ (machine : Machine) (a b : UInt8) (sink : Sink) (fault : Fault),
    (machine.perform handler a b sink).result = .error fault →
    (machine.perform handler a b sink).machine = machine ∧
      ((machine.perform handler a b sink).sink = sink ∨
        handler = Opcode.prn.handler ∧
          machine.LeavesPartOfLine a sink (machine.perform handler a b sink).sink)

namespace Opcode

variable {opcode : Opcode} {a b : UInt8} {machine : Machine} {effect : Effect}

/-- Where printing fails there is a line, and so the instruction is PRN. -/
theorem unprinted {sink : Sink} {error : IoError}
    (h : opcode.effect a b machine.store = .ok effect)
    (printing : (effect.print sink).2 = .error error) :
    opcode = prn ∧ machine.LeavesPartOfLine a sink (effect.print sink).1 := by
  obtain ⟨taken, left, some, whole, text⟩ := Effect.text_print_of_error printing
  cases line : effect.line with
  | none =>
    unfold Effect.print at printing
    rw [line] at printing
    cases printing
  | some digits =>
    obtain ⟨isPrn, r, names, rfl⟩ := (row_iff.mpr h).line line
    have register : machine.register a = .ok (machine.store.registers.get r) := by
      unfold Machine.register
      rw [names_iff.mp names]
      rfl
    unfold Effect.printed at whole
    rw [line] at whole
    exact ⟨isPrn, _, taken, left, register, some, whole, text⟩

theorem failsAtomically_handler (opcode : Opcode) : opcode.handler.FailsAtomically := by
  intro machine a b sink fault failed
  rw [machine.perform_handler] at failed ⊢
  cases answer : opcode.effect a b machine.store with
  | error other => exact ⟨rfl, .inl rfl⟩
  | ok effect =>
    rw [answer] at failed
    unfold Effect.settle Effect.apply at failed ⊢
    cases printing : (effect.print sink).2 with
    | ok _ =>
      simp only [printing] at failed
      cases failed
    | error error =>
      obtain ⟨isPrn, part⟩ := unprinted answer printing
      subst isPrn
      simp only [printing]
      exact ⟨trivial, .inr ⟨trivial, part⟩⟩

end Opcode

/-! ## Runs -/

namespace Machine

variable {machine : Machine} {sink : Sink} {fault : Fault}

/-- A run that fails does so in one of its steps. -/
theorem exists_failing_step (failed : (machine.run sink).result = .error fault) :
    ∃ n, machine.Reaches sink n ∧ (machine.stepAt sink n).result = .error fault ∧
      (machine.run sink).machine = (machine.stepAt sink n).machine ∧
      (machine.run sink).sink = (machine.stepAt sink n).sink := by
  obtain ⟨n, ends⟩ := exists_endsAt machine sink
  have whole := run_eq_joined ends
  refine ⟨n, ends.reaches, ?_, by rw [whole]; rfl, by rw [whole]; rfl⟩
  rw [whole] at failed
  unfold joined at failed
  cases answer : (machine.stepAt sink n).result with
  | ok status =>
    rw [answer] at failed
    cases failed
  | error other =>
    rw [answer] at failed
    cases failed
    rfl

/-- The state before a failing step, marked as failed, is the state after the run. -/
theorem run_of_failure (running : machine.status = .running)
    (failed : (machine.run sink).result = .error fault) :
    ∃ n, machine.Reaches sink n ∧ (machine.stepAt sink n).result = .error fault ∧
      (machine.run sink).machine =
        { (machine.moment sink n).1 with status := .faulted } ∧
      ∃ taken, (machine.run sink).sink.text = (machine.moment sink n).2.text ++ taken := by
  obtain ⟨n, reaches, failing, after, printed⟩ := exists_failing_step failed
  have started := reaches.status_eq.trans running
  refine ⟨n, reaches, failing, ?_, ?_⟩
  · rw [after]
    exact step_of_error started failing
  · rw [printed]
    exact text_step started _

/-! ## Loading -/

theorem step_result_ne_tooLarge (machine : Machine) (sink : Sink) (length capacity : Nat) :
    (machine.step sink).result ≠ .error (.programTooLarge length capacity) := by
  intro failed
  cases status : machine.status with
  | running => exact ofInstruction_of_step_error status failed
  | halted | faulted =>
    unfold step at failed
    rw [status] at failed
    cases failed

theorem run_result_ne_tooLarge (machine : Machine) (sink : Sink) (length capacity : Nat) :
    (machine.run sink).result ≠ .error (.programTooLarge length capacity) := by
  intro failed
  obtain ⟨n, -, failing, -, -⟩ := exists_failing_step failed
  exact step_result_ne_tooLarge _ _ length capacity failing

/-- The outcome of rejecting a program for its length: the machine and the sink
as they were, and not even a record of it. -/
def rejection (program : List UInt8) (machine : Machine) (sink : Sink) : Outcome Unit where
  machine := machine
  sink := sink
  result := .error (.programTooLarge program.length Memory.capacity)

variable {program : List UInt8}

theorem load_of_large (large : Memory.capacity < program.length) (machine : Machine)
    (sink : Sink) : machine.load program sink = rejection program machine sink := by
  unfold load
  rw [Memory.load_eq_error_iff.mpr ⟨large, rfl⟩]
  rfl

theorem load_of_fits (fits : ¬ Memory.capacity < program.length) (machine : Machine)
    (sink : Sink) : (machine.load program sink).result = .ok () := by
  unfold load
  cases loaded : machine.store.memory.load program with
  | ok memory => rfl
  | error fault => exact absurd (Memory.load_eq_error_iff.mp loaded).1 fits

theorem runWith_of_large (large : Memory.capacity < program.length) (machine : Machine)
    (sink : Sink) : machine.runWith program sink = rejection program machine sink := by
  unfold runWith
  rw [load_of_large large]
  rfl

theorem runWith_of_fits (fits : ¬ Memory.capacity < program.length) (machine : Machine)
    (sink : Sink) :
    let loaded := machine.load program sink
    machine.runWith program sink = (loaded.machine.run loaded.sink).after loaded := by
  unfold runWith
  dsimp only
  rw [load_of_fits fits]

/-- A run that was begun is not rejected for its length any more. -/
theorem large_of_runWith_rejected {length capacity : Nat}
    (rejected : (machine.runWith program sink).result = .error (.programTooLarge length capacity)) :
    Memory.capacity < program.length := by
  by_cases large : Memory.capacity < program.length
  · exact large
  · rw [runWith_of_fits large] at rejected
    exact absurd rejected (run_result_ne_tooLarge _ _ length capacity)

theorem large_of_load_rejected {length capacity : Nat}
    (rejected : (machine.load program sink).result = .error (.programTooLarge length capacity)) :
    Memory.capacity < program.length := by
  by_cases large : Memory.capacity < program.length
  · exact large
  · rw [load_of_fits large] at rejected
    cases rejected

end Machine

/-- **Failures are atomic.** Handlers from any table, steps and runs of machines
that run, and programs that are too large for memory. -/
theorem failures_are_atomic :
    (∀ table : DispatchTable Handler, table.Built → ∀ byte handler,
      table.get byte = some handler → handler.FailsAtomically) ∧
    (∀ (machine : Machine) (sink : Sink) (fault : Fault), machine.status = .running →
      (machine.step sink).result = .error fault →
      (machine.step sink).machine = { machine with status := .faulted }) ∧
    (∀ (machine : Machine) (sink : Sink) (fault : Fault), machine.status = .running →
      (machine.run sink).result = .error fault →
      ∃ n, machine.Reaches sink n ∧ (machine.stepAt sink n).result = .error fault ∧
        (machine.run sink).machine = { (machine.moment sink n).1 with status := .faulted } ∧
        ∃ taken, (machine.run sink).sink.text = (machine.moment sink n).2.text ++ taken) ∧
    (∀ (machine : Machine) (sink : Sink) (program : List UInt8),
      (Memory.capacity < program.length →
        machine.load program sink = machine.rejection program sink ∧
          machine.runWith program sink = machine.rejection program sink) ∧
      ∀ length capacity,
        (machine.load program sink).result = .error (.programTooLarge length capacity) ∨
          (machine.runWith program sink).result = .error (.programTooLarge length capacity) →
        Memory.capacity < program.length) := by
  refine ⟨?_, ?_, ?_, ?_⟩
  · intro table built byte handler entry
    obtain ⟨opcode, rfl⟩ := built.exists_opcode entry
    exact opcode.failsAtomically_handler
  · intro machine sink fault running failed
    exact Machine.step_of_error running failed
  · intro machine sink fault running failed
    exact Machine.run_of_failure running failed
  · intro machine sink program
    refine ⟨fun large => ⟨?_, ?_⟩, fun length capacity rejected => ?_⟩
    · exact Machine.load_of_large large machine sink
    · exact Machine.runWith_of_large large machine sink
    · rcases rejected with rejected | rejected
      · exact Machine.large_of_load_rejected rejected
      · exact Machine.large_of_runWith_rejected rejected

/-- A PRN cut off behind its first digit, and a POP at the end of the stack. -/
theorem failures_are_atomic_prn_pop :
    let store := (Store.initial.setRegister 0 42).setSp 255
    let machine : Machine := { store := store.setCell 0 0x46 }
    let sink := Sink.limited 1 (fun _ => 1) none
    (machine.perform Handler.prn 0 0 sink).machine = machine ∧
      (machine.step sink).machine = { machine with status := .faulted } := by
  intro store machine sink
  obtain ⟨handlers, steps, -, -⟩ := failures_are_atomic
  refine ⟨?_, ?_⟩
  · have failed : (machine.perform Handler.prn 0 0 sink).result =
        .error (.output .nothingWritten) := by
      decide +kernel +zetaReduce
    exact (handlers .standard .standard 0x47 Handler.prn rfl machine 0 0 sink _ failed).1
  · have failed : (machine.step sink).result = .error (.stackOutOfBounds .pop 255) := by
      decide +kernel +zetaReduce
    exact steps machine sink _ rfl failed

end ByteMachine
