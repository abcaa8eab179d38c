import ByteMachine.Proofs.History

/-!
# Termination

How long a run is and how it ends. A step that goes on moves the program counter
by two cells or more and never past the end of memory; nothing is asked of the
cells, so it does not matter what a program makes of its own code. At the end of
a run the state of the machine and the result of the run say the same.
-/

namespace ByteMachine.Machine

variable {machine : Machine} {sink : Sink} {n : Nat}

/-! ## The length of a run -/

/-- Every step of a run so far took two cells or more. -/
theorem Reaches.add_le_pc (reaches : machine.Reaches sink n) :
    machine.pc + 2 * n ≤ (machine.moment sink n).1.pc := by
  induction n with
  | zero => exact Nat.le_refl _
  | succ n ih =>
    have before := ih reaches.of_succ
    have moved := reaches.pc_succ.1
    omega

theorem Reaches.pc_le (reaches : machine.Reaches sink n) (bounded : machine.pc ≤ 256) :
    (machine.moment sink n).1.pc ≤ 256 := by
  cases n with
  | zero => exact bounded
  | succ n => exact reaches.pc_succ.2

theorem Reaches.le_half (reaches : machine.Reaches sink n) (bounded : machine.pc ≤ 256) :
    n ≤ (256 - machine.pc) / 2 := by
  have lower := reaches.add_le_pc
  have upper := reaches.pc_le bounded
  omega

/-! ## The end of a run -/

/-- A machine that runs does not fail with the answers of a stopped one. -/
theorem ofInstruction_of_step_error (running : machine.status = .running) {fault : Fault}
    (h : (machine.step sink).result = .error fault) : fault.OfInstruction := by
  have case := step_case running sink
  generalize machine.step sink = outcome at case h
  cases case with
  | unfetched missing =>
    cases h
    rcases fetch_eq_error missing with ⟨address, rfl⟩ | ⟨byte, rfl⟩
    · trivial
    · trivial
  | refused holds refusal =>
    cases h
    rcases (row_iff.mpr refusal).refusal with ⟨byte, rfl⟩ | rfl
    · trivial
    · trivial
  | unprinted =>
    cases h
    trivial
  | next | halt => cases h

/-- The state of the machine after a run fits the result of the run. -/
structure Settled (outcome : Outcome Unit) : Prop where
  halted_iff : outcome.machine.status = .halted ↔ outcome.result = .ok ()
  faulted_iff : outcome.machine.status = .faulted ↔ ∃ fault, outcome.result = .error fault
  not_running : outcome.machine.status ≠ .running
  cause : ∀ fault, outcome.result = .error fault → fault ≠ .halted ∧ fault ≠ .faulted

theorem settled_joined (running : machine.status = .running) (ends : machine.EndsAt sink n) :
    Settled (machine.joined sink n) := by
  have started : (machine.moment sink n).1.status = .running :=
    ends.reaches.status_eq.trans running
  cases answer : (machine.stepAt sink n).result with
  | ok status =>
    obtain ⟨after, sound⟩ := status_of_step_eq_ok answer
    have halted : (machine.joined sink n).machine.status = .halted := by
      cases status with
      | running => exact absurd answer ends.stops
      | halted => exact after
      | faulted => exact absurd rfl sound
    have result : (machine.joined sink n).result = .ok () := by
      simp only [joined, answer, Except.map]
    refine ⟨?_, ?_, ?_, ?_⟩
    · rw [halted, result]
      exact ⟨fun _ => rfl, fun _ => rfl⟩
    · rw [halted, result]
      constructor
      · intro same
        cases same
      · rintro ⟨fault, same⟩
        cases same
    · rw [halted]
      intro same
      cases same
    · rw [result]
      intro fault same
      cases same
  | error fault =>
    have faulted : (machine.joined sink n).machine.status = .faulted :=
      congrArg Machine.status (step_of_error started answer)
    have result : (machine.joined sink n).result = .error fault := by
      simp only [joined, answer, Except.map]
    refine ⟨?_, ?_, ?_, ?_⟩
    · rw [faulted, result]
      constructor
      · intro same
        cases same
      · intro same
        cases same
    · rw [faulted, result]
      exact ⟨fun _ => ⟨fault, rfl⟩, fun _ => rfl⟩
    · rw [faulted]
      intro same
      cases same
    · intro other same
      rw [result] at same
      cases same
      have cause := ofInstruction_of_step_error started answer
      refine ⟨?_, ?_⟩
      · rintro rfl
        exact cause
      · rintro rfl
        exact cause

/-- **Every run ends.** A run of a machine that runs and whose program counter is
at most one behind memory takes the steps up to some number `n`, counted from
zero, and no others. There are few of them, for each but the last moves the
program counter by two or more, and never past the end of memory. -/
theorem run_ends (machine : Machine) (running : machine.status = .running)
    (bounded : machine.pc ≤ 256) (sink : Sink) :
    ∃ n, machine.EndsAt sink n ∧ machine.run sink = machine.joined sink n ∧
      n + 1 ≤ (256 - machine.pc) / 2 + 1 ∧
      (∀ i < n, (machine.moment sink i).1.pc + 2 ≤ (machine.stepAt sink i).machine.pc ∧
        (machine.stepAt sink i).machine.pc ≤ 256) ∧
      Settled (machine.run sink) := by
  obtain ⟨n, ends⟩ := exists_endsAt machine sink
  refine ⟨n, ends, run_eq_joined ends, ?_, ?_, ?_⟩
  · exact Nat.succ_le_succ (ends.reaches.le_half bounded)
  · intro i before
    exact pc_of_step_eq_running (ends.reaches i before)
  · rw [run_eq_joined ends]
    exact settled_joined running ends

/-- Also of a program that writes its own code: the PUSH at address 6 puts HLT
where the image has PRN. -/
theorem run_ends_over_own_code :
    let program : List UInt8 := [0x82, 0x00, 0x01, 0x82, 0x07, 0x09, 0x45, 0x00, 0x47, 0x00]
    let loaded := initial.load program .unlimited
    ∃ n ≤ 128, loaded.machine.EndsAt .unlimited n ∧
      Settled (loaded.machine.run .unlimited) := by
  intro program loaded
  obtain ⟨n, ends, -, few, -, settled⟩ :=
    run_ends loaded.machine (by decide) (by decide) .unlimited
  have start : loaded.machine.pc = 0 := rfl
  rw [start] at few
  exact ⟨n, by omega, ends, settled⟩

end ByteMachine.Machine
