import ByteMachine.Proofs.ReadSet
import ByteMachine.Proofs.Stopping
import ByteMachine.Proofs.TracedRun

/-!
# Tracing

A machine that is traced emits its trace line in each step of a run that is tried, the
last one included (`trace_run`), and a run is otherwise the same whether it is traced
or not (`Alike.endsAt`, `Alike.run`). That the machine is traced is in its state, where
nothing but the trace lines of a step looks at it.
-/

namespace ByteMachine.Machine

variable {machine other : Machine} {sink : Sink} {n : Nat}

/-! ## The trace of a run -/

theorem tracing_step (machine : Machine) (sink : Sink) :
    (machine.step sink).machine.tracing = machine.tracing := by
  cases status : machine.status with
  | halted | faulted =>
    unfold step
    rw [status]
  | running =>
    have case := step_case status sink
    generalize machine.step sink = outcome at case ⊢
    cases case with
    | unfetched | refused | unprinted | next | halt => rfl

theorem tracing_moment (machine : Machine) (sink : Sink) (n : Nat) :
    (machine.moment sink n).1.tracing = machine.tracing := by
  induction n with
  | zero => rfl
  | succ n ih =>
    rw [moment_succ]
    exact (tracing_step _ _).trans ih

/-- Each step of a run emits the line of its machine, if the run is traced. -/
theorem Reaches.trace_stepAt (reaches : machine.Reaches sink n)
    (running : machine.status = .running) :
    (machine.stepAt sink n).trace =
      if machine.tracing then [(machine.moment sink n).1.traceLine] else [] := by
  have started := reaches.status_eq.trans running
  unfold stepAt step
  rw [started, ← tracing_moment machine sink n]
  rfl

/-- The trace of a run is a line for each step up to the last one. -/
theorem trace_run (running : machine.status = .running) (ends : machine.EndsAt sink n) :
    (machine.run sink).trace = if machine.tracing then machine.traceLines sink (n + 1) else [] := by
  have step (i : Nat) (h : i ∈ List.range (n + 1)) : (machine.stepAt sink i).trace =
      if machine.tracing then [(machine.moment sink i).1.traceLine] else [] :=
    (ends.reaches.mono (Nat.le_of_lt_succ (List.mem_range.mp h))).trace_stepAt running
  have trace : (machine.run sink).trace =
      (List.range (n + 1)).flatMap fun i => (machine.stepAt sink i).trace := by
    rw [run_eq_joined ends]
    rfl
  rw [trace, List.flatMap_congr step]
  unfold traceLines
  cases machine.tracing with
  | true => exact (List.map_eq_flatMap ..).symm
  | false => exact List.flatMap_eq_nil_iff.mpr fun _ _ => rfl

/-! ## Machines that differ in tracing -/

/-- The machines differ in nothing but in whether they are traced. -/
abbrev Alike (machine other : Machine) : Prop :=
  machine.AgreesOn (fun _ => True) other

namespace Alike

theorem traceLine_eq (alike : machine.Alike other) : other.traceLine = machine.traceLine := by
  unfold traceLine
  rw [alike.pc, alike.registers, TraceLine.mk.injEq]
  refine ⟨rfl, congrArg Vector.ofFn ?_, rfl⟩
  funext offset
  exact alike.memory _ trivial

/-- Their runs take the same steps, which leave machines that differ in nothing else. -/
theorem moment (alike : machine.Alike other) (running : machine.status = .running)
    (reaches : machine.Reaches sink n) :
    (machine.moment sink n).1.Alike (other.moment sink n).1 := by
  have inStep := reaches.inStep running (alike.mono fun _ _ => trivial)
  exact inStep.machines.mono fun address _ => .inl (alike.memory address trivial)

theorem stepAt (alike : machine.Alike other) (running : machine.status = .running)
    (reaches : machine.Reaches sink n) :
    (machine.stepAt sink n).AgreesOn (fun _ => True) (other.stepAt sink n) := by
  have known : machine.AgreesOn (machine.ReadsInitially sink) other :=
    alike.mono fun _ _ => trivial
  have stepped := (reaches.inStep running known).stepAt running known reaches
  refine ⟨stepped.machine.mono fun address _ => ?_, stepped.sink, stepped.result⟩
  exact .inl (alike.memory address trivial)

theorem endsAt (alike : machine.Alike other) (running : machine.status = .running)
    (ends : machine.EndsAt sink n) : other.EndsAt sink n := by
  have inStep := ends.reaches.inStep running (alike.mono fun _ _ => trivial)
  exact ends.of_result_eq inStep.reaches (alike.stepAt running ends.reaches).result

theorem traceLines_eq (alike : machine.Alike other) (running : machine.status = .running)
    (reaches : machine.Reaches sink n) :
    other.traceLines sink (n + 1) = machine.traceLines sink (n + 1) := by
  refine List.map_congr_left fun i h => ?_
  have before := reaches.mono (Nat.le_of_lt_succ (List.mem_range.mp h))
  exact (alike.moment running before).traceLine_eq

/-- Their runs come to the same, but for the trace. -/
theorem run (alike : machine.Alike other) (running : machine.status = .running) (sink : Sink) :
    (machine.run sink).AgreesOn (fun _ => True) (other.run sink) := by
  obtain ⟨n, ends⟩ := exists_endsAt machine sink
  have last := alike.stepAt running ends.reaches
  rw [run_eq_joined ends, run_eq_joined (alike.endsAt running ends)]
  exact ⟨last.machine, last.sink, congrArg (Except.map _) last.result⟩

end Alike

/-! ## Loading -/

/-- Loading does not look at whether the machine is traced. -/
theorem alike_load (program : List UInt8) (machine : Machine) (tracing : Bool) (sink : Sink) :
    (machine.load program sink).machine.Alike
      (({ machine with tracing } : Machine).load program sink).machine := by
  unfold load
  dsimp only
  split
  · exact ⟨rfl, rfl, rfl, fun _ _ => rfl⟩
  · exact ⟨rfl, rfl, rfl, fun _ _ => rfl⟩

theorem trace_load (program : List UInt8) (machine : Machine) (sink : Sink) :
    (machine.load program sink).trace = [] := by
  unfold load
  split
  · rfl
  · rfl

end ByteMachine.Machine
