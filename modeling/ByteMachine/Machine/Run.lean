import ByteMachine.Machine.Step

/-!
# Runs

Steps until one answers anything but that the machine goes on. Every step that
goes on raises the program counter and stays in memory, so a run ends whatever
the program does to itself.
-/

namespace ByteMachine.Machine

/-- Steps until the machine stops. -/
def run (machine : Machine) (sink : Sink) : Outcome Unit :=
  let first := machine.step sink
  match _ : first.result with
  | .ok .running => (first.machine.run first.sink).after first
  | .ok _ => { first with result := .ok () }
  | .error fault => { first with result := .error fault }
termination_by 256 - machine.pc
decreasing_by
  have := pc_of_step_eq_running (by assumption)
  omega

/-! A run is its first step, and the run from there if that step goes on. -/

theorem run_of_running {machine : Machine} {sink : Sink}
    (h : (machine.step sink).result = .ok .running) :
    machine.run sink =
      ((machine.step sink).machine.run (machine.step sink).sink).after (machine.step sink) := by
  rw [run]
  split
  · rfl
  · simp_all
  · simp_all

theorem run_of_stopped {machine : Machine} {sink : Sink} {status : Status}
    (h : (machine.step sink).result = .ok status) (stopped : status ≠ .running) :
    machine.run sink = { machine.step sink with result := .ok () } := by
  rw [run]
  split
  · simp_all
  · rfl
  · simp_all

theorem run_of_error {machine : Machine} {sink : Sink} {fault : Fault}
    (h : (machine.step sink).result = .error fault) :
    machine.run sink = { machine.step sink with result := .error fault } := by
  rw [run]
  split <;> simp_all

/-- The answer of a last step only loses its state. -/
theorem run_of_not_running {machine : Machine} {sink : Sink}
    (h : (machine.step sink).result ≠ .ok .running) :
    machine.run sink = (machine.step sink).map fun _ => () := by
  unfold Outcome.map
  cases answer : (machine.step sink).result with
  | error fault =>
    rw [run_of_error answer]
    rfl
  | ok status =>
    have stopped : status ≠ .running := fun goesOn => h (goesOn ▸ answer)
    rw [run_of_stopped answer stopped]
    rfl

/-- Loads `program`, then runs. -/
def runWith (program : List UInt8) (machine : Machine) (sink : Sink) : Outcome Unit :=
  let loaded := machine.load program sink
  match loaded.result with
  | .ok () => (loaded.machine.run loaded.sink).after loaded
  | .error _ => loaded

/-- The trace lines of a run, one before every step that is tried, and the
outcome of the run with the answer of its last step. -/
def walk (machine : Machine) (sink : Sink) : List TraceLine × Outcome Status :=
  let first := machine.step sink
  match _ : first.result with
  | .ok .running =>
    let (lines, last) := first.machine.walk first.sink
    (machine.traceLine :: lines, last.after first)
  | _ => ([machine.traceLine], first)
termination_by 256 - machine.pc
decreasing_by
  have := pc_of_step_eq_running (by assumption)
  omega

theorem walk_of_running {machine : Machine} {sink : Sink}
    (h : (machine.step sink).result = .ok .running) :
    machine.walk sink =
      let rest := (machine.step sink).machine.walk (machine.step sink).sink
      (machine.traceLine :: rest.1, rest.2.after (machine.step sink)) := by
  rw [walk]
  split
  · rfl
  · rename_i goesOn
    exact absurd h goesOn

theorem walk_of_not_running {machine : Machine} {sink : Sink}
    (h : (machine.step sink).result ≠ .ok .running) :
    machine.walk sink = ([machine.traceLine], machine.step sink) := by
  rw [walk]
  split
  · rename_i goesOn
    exact absurd goesOn h
  · rfl

end ByteMachine.Machine
