import ByteMachine.Effect
import ByteMachine.Listing
import ByteMachine.Machine.Fetch

/-!
# Steps

One cycle of a running machine: fetch the instruction at the program counter
with the operands it asks for, carry it out, and move on. A fault at any point
stops the machine. A machine that is stopped answers with the reason and does
nothing.
-/

namespace ByteMachine.Machine

/-- The machine stopped by `fault`. -/
def stop (machine : Machine) (sink : Sink) (fault : Fault) : Outcome Status where
  machine := { machine with status := .faulted }
  sink := sink
  log := [.stopped machine.pc fault]
  result := .error fault

/-- Carries out a fetched instruction. -/
def execute (fetched : Fetched) (machine : Machine) (sink : Sink) : Outcome Status :=
  let done := machine.perform fetched.handler fetched.a fetched.b sink
  match done.result with
  | .ok .next =>
    { machine := { done.machine with pc := done.machine.pc + fetched.length }
      sink := done.sink
      result := .ok done.machine.status }
  | .ok .halt =>
    { machine := { done.machine with status := .halted }
      sink := done.sink
      log := [.halted machine.pc]
      result := .ok .halted }
  | .error fault => done.machine.stop done.sink fault

/-- The record that an instruction is about to be carried out. -/
def dispatchRecord (machine : Machine) : Log.Record :=
  .dispatched machine.pc (itemAt? machine.store.memory.toList machine.pc)

/-- One cycle of a running machine that dispatches through `table`. -/
def cycleThrough (table : DispatchTable Handler) (machine : Machine) (sink : Sink) :
    Outcome Status :=
  match machine.fetchThrough table with
  | .ok fetched =>
    let outcome := machine.execute fetched sink
    { outcome with log := machine.dispatchRecord :: outcome.log }
  | .error fault => machine.stop sink fault

def cycle (machine : Machine) (sink : Sink) : Outcome Status :=
  machine.cycleThrough .standard sink

/-- The trace lines of a step: one, if the machine is traced. -/
def traced (machine : Machine) : List TraceLine :=
  if machine.tracing then [machine.traceLine] else []

def step (machine : Machine) (sink : Sink) : Outcome Status :=
  match machine.status with
  | .running => { machine.cycle sink with trace := machine.traced }
  | .halted => { machine, sink, result := .error .halted }
  | .faulted => { machine, sink, result := .error .faulted }

variable {machine : Machine} {opcode : Opcode} {a b : UInt8} {effect : Effect} {sink : Sink}

theorem cycleThrough_of_fetch_error {table : DispatchTable Handler} {fault : Fault}
    (missing : machine.fetchThrough table = .error fault) (sink : Sink) :
    machine.cycleThrough table sink = machine.stop sink fault := by
  unfold cycleThrough
  rw [missing]

theorem cycleThrough_of_fetch {table : DispatchTable Handler} {fetched : Fetched}
    (fetch : machine.fetchThrough table = .ok fetched) (sink : Sink) :
    machine.cycleThrough table sink =
      { machine.execute fetched sink with
        log := machine.dispatchRecord :: (machine.execute fetched sink).log } := by
  unfold cycleThrough
  rw [fetch]

theorem step_of_fetch_error (running : machine.status = .running) {fault : Fault}
    (missing : machine.fetch = .error fault) (sink : Sink) :
    machine.step sink =
      { machine := { machine with status := .faulted }
        sink
        log := [.stopped machine.pc fault]
        trace := machine.traced
        result := .error fault } := by
  unfold step cycle
  rw [running, cycleThrough_of_fetch_error missing]
  rfl

/-! ## Steps at a whole instruction -/

/-- The step calls the handler of the instruction, which comes to its effect. -/
theorem step_of_holds (running : machine.status = .running) (holds : machine.Holds opcode a b)
    (sink : Sink) :
    machine.step sink =
      let done := Effect.settle (opcode.effect a b machine.store) machine sink
      let outcome : Outcome Status := match done.result with
        | .ok .next =>
          { machine := { done.machine with pc := done.machine.pc + (opcode.operandCount + 1) }
            sink := done.sink
            result := .ok done.machine.status }
        | .ok .halt =>
          { machine := { done.machine with status := .halted }
            sink := done.sink
            log := [.halted machine.pc]
            result := .ok .halted }
        | .error fault => done.machine.stop done.sink fault
      { outcome with log := machine.dispatchRecord :: outcome.log, trace := machine.traced } := by
  unfold step cycle
  rw [running, cycleThrough_of_fetch (fetch_of_holds holds)]
  unfold execute
  simp only [perform_handler]

theorem step_of_refused (running : machine.status = .running) (holds : machine.Holds opcode a b)
    {fault : Fault} (refusal : opcode.effect a b machine.store = .error fault) (sink : Sink) :
    machine.step sink =
      { machine := { machine with status := .faulted }
        sink
        log := [machine.dispatchRecord, .stopped machine.pc fault]
        trace := machine.traced
        result := .error fault } := by
  rw [step_of_holds running holds, refusal]
  rfl

theorem step_of_unprinted (running : machine.status = .running)
    (holds : machine.Holds opcode a b) (effect_eq : opcode.effect a b machine.store = .ok effect)
    {error : IoError} (printing : (effect.print sink).2 = .error error) :
    machine.step sink =
      { machine := { machine with status := .faulted }
        sink := (effect.print sink).1
        log := [machine.dispatchRecord, .stopped machine.pc (.output error)]
        trace := machine.traced
        result := .error (.output error) } := by
  rw [step_of_holds running holds, effect_eq, Effect.settle, Effect.apply, printing]
  rfl

theorem step_of_next (running : machine.status = .running) (holds : machine.Holds opcode a b)
    (effect_eq : opcode.effect a b machine.store = .ok effect) (flow : effect.flow = .next)
    (printing : (effect.print sink).2 = .ok ()) :
    machine.step sink =
      { machine :=
          { machine with store := effect.store, pc := machine.pc + (opcode.operandCount + 1) }
        sink := (effect.print sink).1
        log := [machine.dispatchRecord]
        trace := machine.traced
        result := .ok .running } := by
  rw [step_of_holds running holds, effect_eq, Effect.settle, Effect.apply, printing, ← running]
  simp only [flow]

theorem step_of_halt (running : machine.status = .running) (holds : machine.Holds opcode a b)
    (effect_eq : opcode.effect a b machine.store = .ok effect) (flow : effect.flow = .halt)
    (printing : (effect.print sink).2 = .ok ()) :
    machine.step sink =
      { machine := { machine with store := effect.store, status := .halted }
        sink := (effect.print sink).1
        log := [machine.dispatchRecord, .halted machine.pc]
        trace := machine.traced
        result := .ok .halted } := by
  rw [step_of_holds running holds, effect_eq, Effect.settle, Effect.apply, printing]
  simp only [flow]

/-! ## What a step can do -/

/-- The ways in which a step of a running machine can end, each with all that
comes of it. -/
inductive StepCase (machine : Machine) (sink : Sink) : Outcome Status → Prop
  /-- Nothing is dispatched. -/
  | unfetched {fault : Fault} (missing : machine.fetch = .error fault) :
      StepCase machine sink
        { machine := { machine with status := .faulted }
          sink
          log := [.stopped machine.pc fault]
          trace := machine.traced
          result := .error fault }
  /-- The instruction refuses its operands or the stack. -/
  | refused {opcode : Opcode} {a b : UInt8} {fault : Fault} (holds : machine.Holds opcode a b)
      (refusal : opcode.effect a b machine.store = .error fault) :
      StepCase machine sink
        { machine := { machine with status := .faulted }
          sink
          log := [machine.dispatchRecord, .stopped machine.pc fault]
          trace := machine.traced
          result := .error fault }
  /-- The sink refuses a part of the line. -/
  | unprinted {opcode : Opcode} {a b : UInt8} {effect : Effect} {error : IoError}
      (holds : machine.Holds opcode a b)
      (effect_eq : opcode.effect a b machine.store = .ok effect)
      (printing : (effect.print sink).2 = .error error) :
      StepCase machine sink
        { machine := { machine with status := .faulted }
          sink := (effect.print sink).1
          log := [machine.dispatchRecord, .stopped machine.pc (.output error)]
          trace := machine.traced
          result := .error (.output error) }
  | next {opcode : Opcode} {a b : UInt8} {effect : Effect} (holds : machine.Holds opcode a b)
      (effect_eq : opcode.effect a b machine.store = .ok effect) (flow : effect.flow = .next)
      (printing : (effect.print sink).2 = .ok ()) :
      StepCase machine sink
        { machine :=
            { machine with store := effect.store, pc := machine.pc + (opcode.operandCount + 1) }
          sink := (effect.print sink).1
          log := [machine.dispatchRecord]
          trace := machine.traced
          result := .ok .running }
  | halt {opcode : Opcode} {a b : UInt8} {effect : Effect} (holds : machine.Holds opcode a b)
      (effect_eq : opcode.effect a b machine.store = .ok effect) (flow : effect.flow = .halt)
      (printing : (effect.print sink).2 = .ok ()) :
      StepCase machine sink
        { machine := { machine with store := effect.store, status := .halted }
          sink := (effect.print sink).1
          log := [machine.dispatchRecord, .halted machine.pc]
          trace := machine.traced
          result := .ok .halted }

theorem step_case (running : machine.status = .running) (sink : Sink) :
    StepCase machine sink (machine.step sink) := by
  cases fetched : machine.fetch with
  | error fault =>
    rw [step_of_fetch_error running fetched]
    exact .unfetched fetched
  | ok _ =>
    obtain ⟨opcode, a, b, holds⟩ := holds_of_fetch_eq_ok fetched
    cases answer : opcode.effect a b machine.store with
    | error fault =>
      rw [step_of_refused running holds answer]
      exact .refused holds answer
    | ok effect =>
      cases printing : (effect.print sink).2 with
      | error error =>
        rw [step_of_unprinted running holds answer printing]
        exact .unprinted holds answer printing
      | ok _ =>
        cases flow : effect.flow with
        | next =>
          rw [step_of_next running holds answer flow printing]
          exact .next holds answer flow printing
        | halt =>
          rw [step_of_halt running holds answer flow printing]
          exact .halt holds answer flow printing

theorem running_of_step_eq_ok {status : Status} (h : (machine.step sink).result = .ok status) :
    machine.status = .running := by
  unfold step at h
  cases current : machine.status with
  | running => rfl
  | halted | faulted =>
    rw [current] at h
    cases h

/-! ## Steps that go on -/

/-- A step that goes on has carried out a whole instruction and stands right
behind it. -/
theorem step_of_running (h : (machine.step sink).result = .ok .running) :
    ∃ opcode a b effect, machine.Holds opcode a b ∧
      opcode.effect a b machine.store = .ok effect ∧ effect.flow = .next ∧
      (machine.step sink).machine =
        { machine with store := effect.store, pc := machine.pc + (opcode.operandCount + 1) } ∧
      (machine.step sink).sink = (effect.print sink).1 := by
  have case := step_case (running_of_step_eq_ok h) sink
  generalize machine.step sink = outcome at case h ⊢
  cases case with
  | next holds effect_eq flow _ => exact ⟨_, _, _, _, holds, effect_eq, flow, rfl, rfl⟩
  | unfetched | refused | unprinted | halt => cases h

/-- Only HLT is a single byte, so a step that goes on moves by two cells or more. -/
theorem pc_of_step_eq_running (h : (machine.step sink).result = .ok .running) :
    machine.pc + 2 ≤ (machine.step sink).machine.pc ∧ (machine.step sink).machine.pc ≤ 256 := by
  obtain ⟨opcode, a, b, effect, holds, effect_eq, flow, after, -⟩ := step_of_running h
  have some := Opcode.operandCount_pos (Opcode.ne_hlt_of_effect effect_eq flow)
  have whole := holds.lt
  rw [after]
  dsimp only
  omega

/-! ## Steps that stop -/

/-- A step that fails marks the machine and changes nothing else of it. -/
theorem step_of_error (running : machine.status = .running) {fault : Fault}
    (h : (machine.step sink).result = .error fault) :
    (machine.step sink).machine = { machine with status := .faulted } := by
  have case := step_case running sink
  generalize machine.step sink = outcome at case h ⊢
  cases case with
  | unfetched | refused | unprinted => rfl
  | next | halt => cases h

/-- What was printed before a step stays printed, whatever the step comes to. -/
theorem text_step (running : machine.status = .running) (sink : Sink) :
    ∃ taken, (machine.step sink).sink.text = sink.text ++ taken := by
  have case := step_case running sink
  generalize machine.step sink = outcome at case ⊢
  cases case with
  | unfetched | refused => exact ⟨[], (List.append_nil _).symm⟩
  | unprinted _ _ printing =>
    obtain ⟨taken, -, -, -, text⟩ := Effect.text_print_of_error printing
    exact ⟨taken, text⟩
  | next _ _ _ printing | halt _ _ _ printing => exact ⟨_, Effect.text_print_of_ok printing⟩

/-- A step that succeeds answers with the state of the machine after it, which
is not that of a fault. -/
theorem status_of_step_eq_ok {status : Status} (h : (machine.step sink).result = .ok status) :
    (machine.step sink).machine.status = status ∧ status ≠ .faulted := by
  have running := running_of_step_eq_ok h
  have case := step_case running sink
  generalize machine.step sink = outcome at case h ⊢
  cases case with
  | unfetched | refused | unprinted => cases h
  | next =>
    cases h
    exact ⟨running, nofun⟩
  | halt =>
    cases h
    exact ⟨rfl, nofun⟩

end ByteMachine.Machine
