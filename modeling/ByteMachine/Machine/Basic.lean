import ByteMachine.Log
import ByteMachine.Sink
import ByteMachine.Store
import ByteMachine.Trace

/-!
# The machine

A program counter, registers and memory, and whether the machine still runs.
Every operation takes a machine and an output sink and answers with an
`Outcome`: the machine and the sink after it, what was logged and traced on the
way, and the result.
-/

namespace ByteMachine

inductive Status
  | running
  | halted
  /-- Stopped by a fault; nothing is fetched any more. -/
  | faulted
deriving DecidableEq, Repr

structure Machine where
  pc : Nat := 0
  store : Store := .initial
  status : Status := .running
  /-- Whether each step of a running machine emits its trace line. -/
  tracing : Bool := false
deriving DecidableEq, Repr

structure Outcome (α : Type) where
  machine : Machine
  sink : Sink
  log : List Log.Record := []
  trace : List TraceLine := []
  result : Except Fault α

namespace Outcome

variable {α : Type}

/-- The outcome with everything that `earlier` logged and traced put in front. -/
def after {β : Type} (outcome : Outcome α) (earlier : Outcome β) : Outcome α :=
  { outcome with
    log := earlier.log ++ outcome.log
    trace := earlier.trace ++ outcome.trace }

/-- The outcome with `f` applied to its answer. -/
def map {β : Type} (f : α → β) (outcome : Outcome α) : Outcome β :=
  { outcome with result := outcome.result.map f }

end Outcome

namespace Machine

/-- A new machine: nothing loaded, the stack empty. -/
def initial : Machine := {}

/-- Copies a program to the start of memory. Nothing else changes; a program
that is too large changes nothing at all. -/
def load (program : List UInt8) (machine : Machine) (sink : Sink) : Outcome Unit :=
  match machine.store.memory.load program with
  | .ok memory =>
    { machine := { machine with store := { machine.store with memory } }
      sink
      log := [.loaded program.length]
      result := .ok () }
  | .error fault => { machine, sink, result := .error fault }

/-- Loading replaces the first cells, and keeps the cells behind the program. -/
theorem toList_load {program : List UInt8} (fits : program.length ≤ Memory.capacity)
    (machine : Machine) (sink : Sink) :
    (machine.load program sink).machine.store.memory.toList =
      program ++ machine.store.memory.toList.drop program.length := by
  unfold load
  cases loaded : machine.store.memory.load program with
  | ok memory => exact Memory.toList_of_load_eq_ok loaded
  | error fault => exact absurd fits (Nat.not_le.mpr (Memory.load_eq_error_iff.mp loaded).1)

/-- Loading has nothing to do with the sink. -/
theorem machine_load_congr (program : List UInt8) (machine : Machine) (sink other : Sink) :
    (machine.load program sink).machine = (machine.load program other).machine := by
  unfold load
  split
  · rfl
  · rfl

/-- The value of the register that `index` names. -/
def register (machine : Machine) (index : UInt8) : Except Fault UInt8 := do
  let register ← Register.ofByte index
  return machine.store.registers.get register

/-- What a trace line shows of the machine. -/
def traceLine (machine : Machine) : TraceLine where
  pc := machine.pc
  cells := Vector.ofFn fun offset => machine.store.memory.cell? (machine.pc + offset.val)
  registers := machine.store.registers

end Machine

end ByteMachine
