import ByteMachine.Proofs.Atomicity

/-!
# Stopped machines

How a machine comes to a stop, and what can be done with it after that. It stops in
a step and nowhere else, at HLT or at a fault. From then on every call that would go
on is refused, and all that can change is memory, by the programs that are loaded
into it (`stopped_for_good`).
-/

namespace ByteMachine

/-! ## Calls -/

/-- What can be asked of a machine. -/
inductive Call
  | load (program : List UInt8)
  | step
  | run
  | runWith (program : List UInt8)
deriving DecidableEq, Repr

/-- The program that the call puts into memory, if it brings one that fits. -/
def Call.accepted? : Call → Option (List UInt8)
  | load program | runWith program =>
    if program.length ≤ Memory.capacity then some program else none
  | step | run => none

/-- What a machine that is stopped for `reason` answers to the call. -/
def Call.refusal (reason : Fault) : Call → Except Fault (Option Status)
  | load program =>
    if program.length ≤ Memory.capacity then .ok none
    else .error (.programTooLarge program.length Memory.capacity)
  | step | run => .error reason
  | runWith program =>
    if program.length ≤ Memory.capacity then .error reason
    else .error (.programTooLarge program.length Memory.capacity)

/-- Why a machine in this state does not go on, if it does not. -/
def Status.reason? : Status → Option Fault
  | running => none
  | halted => some .halted
  | faulted => some .faulted

namespace Machine

/-- What the call comes to. A step answers with the state of the machine after it. -/
def respond (call : Call) (machine : Machine) (sink : Sink) : Outcome (Option Status) :=
  match call with
  | .load program => (machine.load program sink).map fun _ => none
  | .step => (machine.step sink).map some
  | .run => (machine.run sink).map fun _ => none
  | .runWith program => (machine.runWith program sink).map fun _ => none

/-- The machine after calls, one after the other, each with a sink of its own. -/
def afterCalls (machine : Machine) (calls : List (Call × Sink)) : Machine :=
  calls.foldl (fun machine (call, sink) => (machine.respond call sink).machine) machine

/-- Carrying out the call takes a step of the machine in `moment`, alone or in the
course of a run. -/
inductive Takes (machine : Machine) (sink : Sink) : Call → (moment : Machine × Sink) → Prop
  | step : Takes machine sink .step (machine, sink)
  | run {n : Nat} (reaches : machine.Reaches sink n) :
      Takes machine sink .run (machine.moment sink n)
  | runWith {program : List UInt8} {n : Nat} (fits : program.length ≤ Memory.capacity)
      (reaches : (machine.load program sink).machine.Reaches sink n) :
      Takes machine sink (.runWith program) ((machine.load program sink).machine.moment sink n)

variable {machine : Machine} {sink : Sink} {call : Call} {program : List UInt8} {reason : Fault}

/-! ## What loading keeps -/

/-- The cells after `program` was copied over the first of them. -/
def overwritten (cells program : List UInt8) : List UInt8 :=
  program ++ cells.drop program.length

/-- Of `machine` nothing changed but the memory, over which `programs` were copied one
after the other. -/
structure Keeps (machine after : Machine) (programs : List (List UInt8)) : Prop where
  pc : after.pc = machine.pc
  status : after.status = machine.status
  registers : after.store.registers = machine.store.registers
  tracing : after.tracing = machine.tracing
  memory : after.store.memory.toList = programs.foldl overwritten machine.store.memory.toList

theorem Keeps.refl (machine : Machine) : machine.Keeps machine [] :=
  ⟨rfl, rfl, rfl, rfl, rfl⟩

theorem Keeps.trans {between after : Machine} {first second : List (List UInt8)}
    (keeps : machine.Keeps between first) (keeps' : between.Keeps after second) :
    machine.Keeps after (first ++ second) where
  pc := keeps'.pc.trans keeps.pc
  status := keeps'.status.trans keeps.status
  registers := keeps'.registers.trans keeps.registers
  tracing := keeps'.tracing.trans keeps.tracing
  memory := by rw [keeps'.memory, keeps.memory, List.foldl_append]

theorem sink_load (program : List UInt8) (machine : Machine) (sink : Sink) :
    (machine.load program sink).sink = sink := by
  unfold load
  split
  · rfl
  · rfl

theorem keeps_load (fits : program.length ≤ Memory.capacity) (machine : Machine) (sink : Sink) :
    machine.Keeps (machine.load program sink).machine [program] := by
  unfold load
  cases loaded : machine.store.memory.load program with
  | ok memory => exact ⟨rfl, rfl, rfl, rfl, Memory.toList_of_load_eq_ok loaded⟩
  | error fault => exact absurd fits (Nat.not_le.mpr (Memory.load_eq_error_iff.mp loaded).1)

/-! ## How a machine stops -/

/-- The state in which a step leaves a running machine is told by its answer. It is
the state after the end of a program exactly if the instruction was HLT. -/
structure StepSettles (machine : Machine) (sink : Sink) : Prop where
  running_iff : (machine.step sink).machine.status = .running ↔
    (machine.step sink).result = .ok .running
  halted_iff : (machine.step sink).machine.status = .halted ↔
    (machine.step sink).result = .ok .halted
  hlt_iff : (machine.step sink).machine.status = .halted ↔ ∃ a b, machine.Holds .hlt a b
  faulted_iff : (machine.step sink).machine.status = .faulted ↔
    ∃ fault, (machine.step sink).result = .error fault

theorem halted_iff_holds_hlt (running : machine.status = .running) (sink : Sink) :
    (machine.step sink).machine.status = .halted ↔ ∃ a b, machine.Holds .hlt a b := by
  constructor
  · intro halted
    have case := step_case running sink
    generalize machine.step sink = outcome at case halted
    cases case with
    | unfetched | refused | unprinted => cases halted
    | next => cases running.symm.trans halted
    | halt holds effect_eq flow =>
      obtain rfl := (row_iff.mpr effect_eq).eq_hlt flow
      exact ⟨_, _, holds⟩
  · rintro ⟨a, b, holds⟩
    rw [step_of_halt running holds rfl rfl rfl]

theorem stepSettles (running : machine.status = .running) (sink : Sink) :
    machine.StepSettles sink := by
  cases answer : (machine.step sink).result with
  | ok status =>
    obtain ⟨after, sound⟩ := status_of_step_eq_ok answer
    refine ⟨?_, ?_, halted_iff_holds_hlt running sink, ?_⟩
    · rw [after, answer, Except.ok.injEq]
    · rw [after, answer, Except.ok.injEq]
    · rw [after, answer]
      exact ⟨fun fails => absurd fails sound, nofun⟩
  | error fault =>
    have after : (machine.step sink).machine.status = .faulted :=
      congrArg Machine.status (step_of_error running answer)
    refine ⟨?_, ?_, halted_iff_holds_hlt running sink, ?_⟩
    · rw [after, answer]
      exact ⟨nofun, nofun⟩
    · rw [after, answer]
      exact ⟨nofun, nofun⟩
    · rw [after, answer]
      exact ⟨fun _ => ⟨fault, rfl⟩, fun _ => rfl⟩

/-- A call of a running machine leaves it running, unless one of the steps that the
call takes stops it, and that one is the last. -/
structure StopsInStep (machine : Machine) (call : Call) (sink : Sink) : Prop where
  settles : ∀ moment, machine.Takes sink call moment →
    moment.1.status = .running ∧ moment.1.StepSettles moment.2
  last : ∀ moment, machine.Takes sink call moment →
    (moment.1.step moment.2).machine.status ≠ .running →
    (machine.respond call sink).machine = (moment.1.step moment.2).machine
  exists_step : (machine.respond call sink).machine.status ≠ .running →
    ∃ moment, machine.Takes sink call moment ∧
      (machine.respond call sink).machine = (moment.1.step moment.2).machine

theorem Takes.running {moment : Machine × Sink} (takes : machine.Takes sink call moment)
    (running : machine.status = .running) : moment.1.status = .running := by
  cases takes with
  | step => exact running
  | run reaches => exact reaches.status_eq.trans running
  | runWith fits reaches =>
    exact reaches.status_eq.trans ((keeps_load fits machine sink).status.trans running)

theorem machine_run_of_endsAt {n : Nat} (ends : machine.EndsAt sink n) :
    (machine.run sink).machine = (machine.stepAt sink n).machine := by
  rw [run_eq_joined ends]
  rfl

theorem runWith_eq_after (fits : program.length ≤ Memory.capacity) (machine : Machine)
    (sink : Sink) :
    machine.runWith program sink =
      ((machine.load program sink).machine.run sink).after (machine.load program sink) := by
  rw [runWith_of_fits (Nat.not_lt.mpr fits), sink_load]

theorem Takes.last {moment : Machine × Sink} (takes : machine.Takes sink call moment)
    (stops : (moment.1.step moment.2).result ≠ .ok .running) :
    (machine.respond call sink).machine = (moment.1.step moment.2).machine := by
  cases takes with
  | step => rfl
  | run reaches => exact machine_run_of_endsAt ⟨reaches, stops⟩
  | runWith fits reaches =>
    have whole := congrArg Outcome.machine (runWith_eq_after fits machine sink)
    exact whole.trans (machine_run_of_endsAt ⟨reaches, stops⟩)

theorem respond_load_of_large (large : Memory.capacity < program.length) (machine : Machine)
    (sink : Sink) :
    machine.respond (.load program) sink = (machine.rejection program sink).map fun _ => none := by
  rw [respond, load_of_large large]

theorem respond_runWith_of_large (large : Memory.capacity < program.length) (machine : Machine)
    (sink : Sink) :
    machine.respond (.runWith program) sink =
      (machine.rejection program sink).map fun _ => none := by
  rw [respond, runWith_of_large large]

theorem exists_takes (running : machine.status = .running)
    (stopped : (machine.respond call sink).machine.status ≠ .running) :
    ∃ moment, machine.Takes sink call moment ∧
      (machine.respond call sink).machine = (moment.1.step moment.2).machine := by
  cases call with
  | load program =>
    by_cases fits : program.length ≤ Memory.capacity
    · exact absurd ((keeps_load fits machine sink).status.trans running) stopped
    · rw [respond_load_of_large (Nat.lt_of_not_le fits)] at stopped
      exact absurd running stopped
  | step => exact ⟨_, .step, rfl⟩
  | run =>
    obtain ⟨n, ends⟩ := exists_endsAt machine sink
    exact ⟨_, .run ends.reaches, machine_run_of_endsAt ends⟩
  | runWith program =>
    by_cases fits : program.length ≤ Memory.capacity
    · obtain ⟨n, ends⟩ := exists_endsAt (machine.load program sink).machine sink
      have takes : machine.Takes sink (.runWith program) _ := .runWith fits ends.reaches
      exact ⟨_, takes, takes.last ends.stops⟩
    · rw [respond_runWith_of_large (Nat.lt_of_not_le fits)] at stopped
      exact absurd running stopped

theorem stopsInStep (running : machine.status = .running) (call : Call) (sink : Sink) :
    machine.StopsInStep call sink where
  settles moment takes := ⟨takes.running running, stepSettles (takes.running running) _⟩
  last moment takes stopped := by
    have settles := stepSettles (takes.running running) moment.2
    exact takes.last fun goesOn => stopped (settles.running_iff.mpr goesOn)
  exists_step := exists_takes running

/-! ## Calls of a stopped machine -/

theorem step_of_reason (stopped : machine.status.reason? = some reason) (sink : Sink) :
    machine.step sink = { machine, sink, result := .error reason } := by
  unfold step
  cases status : machine.status with
  | running =>
    rw [status] at stopped
    cases stopped
  | halted | faulted =>
    rw [status] at stopped
    cases stopped
    rfl

theorem run_of_reason (stopped : machine.status.reason? = some reason) (sink : Sink) :
    machine.run sink = { machine, sink, result := .error reason } := by
  have refused := step_of_reason stopped sink
  have failed : (machine.step sink).result = .error reason := by rw [refused]
  rw [run_of_error failed, refused]

/-- The call changes nothing but memory, and that by a program that it loads; it
prints nothing, and is refused unless it only loads. -/
structure Refused (machine : Machine) (reason : Fault) (call : Call) (out : Sink) : Prop where
  keeps : machine.Keeps (machine.respond call out).machine call.accepted?.toList
  sink : (machine.respond call out).sink = out
  result : (machine.respond call out).result = call.refusal reason

theorem Refused.of_unchanged (nothing : call.accepted? = none)
    (outcome : machine.respond call sink = { machine, sink, result := call.refusal reason }) :
    machine.Refused reason call sink := by
  refine ⟨?_, ?_, ?_⟩
  · rw [outcome, nothing]
    exact .refl machine
  · rw [outcome]
  · rw [outcome]

theorem refused_of_reason (stopped : machine.status.reason? = some reason) (call : Call)
    (sink : Sink) : machine.Refused reason call sink := by
  cases call with
  | load program =>
    by_cases fits : program.length ≤ Memory.capacity
    · refine ⟨?_, sink_load program machine sink, ?_⟩
      · rw [Call.accepted?, if_pos fits]
        exact keeps_load fits machine sink
      · rw [Call.refusal, if_pos fits, respond, Outcome.map, load_of_fits (Nat.not_lt.mpr fits)]
        rfl
    · refine .of_unchanged (if_neg fits) ?_
      rw [respond_load_of_large (Nat.lt_of_not_le fits), Call.refusal, if_neg fits]
      rfl
  | step =>
    refine .of_unchanged rfl ?_
    rw [respond, step_of_reason stopped]
    rfl
  | run =>
    refine .of_unchanged rfl ?_
    rw [respond, run_of_reason stopped]
    rfl
  | runWith program =>
    by_cases fits : program.length ≤ Memory.capacity
    · have keeps := keeps_load fits machine sink
      have refused := run_of_reason (keeps.status ▸ stopped) sink
      have outcome := runWith_eq_after fits machine sink
      rw [refused] at outcome
      refine ⟨?_, ?_, ?_⟩
      · rw [respond, outcome, Call.accepted?, if_pos fits]
        exact keeps
      · rw [respond, outcome]
        rfl
      · rw [respond, outcome, Call.refusal, if_pos fits]
        rfl
    · refine .of_unchanged (if_neg fits) ?_
      rw [respond_runWith_of_large (Nat.lt_of_not_le fits), Call.refusal, if_neg fits]
      rfl

/-- The programs that the calls put into memory, in their order. -/
def acceptedPrograms (calls : List (Call × Sink)) : List (List UInt8) :=
  calls.filterMap fun (call, _) => call.accepted?

theorem keeps_afterCalls (stopped : machine.status.reason? = some reason)
    (calls : List (Call × Sink)) :
    machine.Keeps (machine.afterCalls calls) (acceptedPrograms calls) := by
  induction calls generalizing machine with
  | nil => exact .refl machine
  | cons first rest ih =>
    obtain ⟨call, sink⟩ := first
    have keeps := (refused_of_reason stopped call sink).keeps
    have still : (machine.respond call sink).machine.status.reason? = some reason :=
      keeps.status ▸ stopped
    have later := ih still
    have programs : acceptedPrograms ((call, sink) :: rest) =
        call.accepted?.toList ++ acceptedPrograms rest := by
      unfold acceptedPrograms
      cases accepted : call.accepted? with
      | none => exact List.filterMap_cons_none accepted
      | some program => exact List.filterMap_cons_some accepted
    rw [programs]
    exact keeps.trans later

/-- **A stopped machine stays stopped.** As long as a machine runs, no call stops it
but by a step: that of HLT, which halts it, or one that fails. Once it is stopped, no
calls, in whatever order and with whatever sinks, change anything but memory, and that
only by the programs that they load; none of them prints, and those that would go on
are refused for the reason that the machine is stopped for. -/
theorem stopped_for_good (machine : Machine) :
    (machine.status = .running → ∀ call sink, machine.StopsInStep call sink) ∧
    ∀ reason, machine.status.reason? = some reason → ∀ calls,
      machine.Keeps (machine.afterCalls calls) (acceptedPrograms calls) ∧
      ∀ call sink, (machine.afterCalls calls).Refused reason call sink := by
  refine ⟨stopsInStep, ?_⟩
  intro reason stopped calls
  have keeps := keeps_afterCalls stopped calls
  exact ⟨keeps, refused_of_reason (keeps.status ▸ stopped)⟩

/-- Behind its HLT, a machine takes another program into memory but does not start it. -/
theorem stopped_for_good_reloaded :
    let stopped := (initial.runWith [0x01] .unlimited).machine
    let calls : List (Call × Sink) := [(.load [0x47, 0x00], .unlimited), (.step, .unlimited)]
    let after := stopped.afterCalls calls
    initial.StopsInStep (.runWith [0x01]) .unlimited ∧
      after.pc = 0 ∧ after.store.memory.toList.take 2 = [0x47, 0x00] ∧
      (after.respond (.runWith [0x65, 0x00]) .unlimited).result = .error .halted := by
  intro stopped calls after
  obtain ⟨stops, -⟩ := stopped_for_good initial
  have halted : stopped.status.reason? = some .halted := by decide +kernel
  obtain ⟨keeps, refused⟩ := (stopped_for_good stopped).2 .halted halted calls
  refine ⟨stops rfl _ _, ?_, ?_, (refused _ _).result⟩
  · have start : stopped.pc = 0 := by decide +kernel
    exact keeps.pc.trans start
  · rw [keeps.memory]
    rfl

end Machine

end ByteMachine
