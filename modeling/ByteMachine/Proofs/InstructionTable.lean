import ByteMachine.Machine.Step
import ByteMachine.Proofs.Rows

/-!
# The instruction table

What one step of a running machine does, written down as a table: what is
dispatched at all, and then the row of the instruction. No two rules of the table
disagree and some rule always applies, so the order in which faults are found is
part of it. A step does what the table prescribes.
-/

namespace ByteMachine

/-! ## Changes -/

/-- What a step makes of a machine, prints and answers. -/
structure Change where
  machine : Machine
  printed : List Char
  result : Except Fault Status

namespace Change

/-- A fault stops the machine and changes nothing else. -/
def stopped (machine : Machine) (fault : Fault) : Change where
  machine := { machine with status := .faulted }
  printed := []
  result := .error fault

/-- The change that an instruction makes: it goes on behind itself, or it is the
last one. -/
def ofEffect (machine : Machine) (opcode : Opcode) (effect : Effect) : Change :=
  match effect.flow with
  | .next =>
    { machine :=
        { machine with store := effect.store, pc := machine.pc + (opcode.operandCount + 1) }
      printed := effect.printed
      result := .ok .running }
  | .halt =>
    { machine := { machine with store := effect.store, status := .halted }
      printed := effect.printed
      result := .ok .halted }

/-- The change is what `outcome` comes to, if output went to `sink` before. -/
structure IsMadeBy (change : Change) (outcome : Outcome Status) (sink : Sink) : Prop where
  machine : outcome.machine = change.machine
  result : outcome.result = change.result
  text : outcome.sink.text = sink.text ++ change.printed

theorem IsMadeBy.unique {change other : Change} {outcome : Outcome Status} {sink : Sink}
    (made : change.IsMadeBy outcome sink) (made' : other.IsMadeBy outcome sink) :
    other = change := by
  cases change
  cases other
  congr
  · exact made'.machine.symm.trans made.machine
  · exact List.append_cancel_left (made'.text.symm.trans made.text)
  · exact made'.result.symm.trans made.result

end Change

/-! ## The table -/

/-- The rules for a running machine. -/
inductive Prescribed (machine : Machine) : Change → Prop
  | outside :
      machine.pc = 256 → Prescribed machine (.stopped machine (.addressOutOfBounds 256))
  /-- A byte that is no instruction has no operands that could be missed. -/
  | unknown {byte : UInt8} :
      machine.store.memory.cell? machine.pc = some byte → (∀ opcode, Opcode.encode opcode ≠ byte) →
      Prescribed machine (.stopped machine (.unknownInstruction machine.pc byte))
  | cutOff {opcode : Opcode} :
      machine.store.memory.cell? machine.pc = some opcode.encode →
      255 < machine.pc + opcode.operandCount →
      Prescribed machine (.stopped machine (.addressOutOfBounds 256))
  | refused {opcode : Opcode} {a b : UInt8} {fault : Fault} :
      machine.Holds opcode a b → Row machine.store a b opcode (.error fault) →
      Prescribed machine (.stopped machine fault)
  | carriedOut {opcode : Opcode} {a b : UInt8} {effect : Effect} :
      machine.Holds opcode a b → Row machine.store a b opcode (.ok effect) →
      Prescribed machine (.ofEffect machine opcode effect)

namespace Prescribed

open Machine

variable {machine : Machine} {sink : Sink} {change : Change}

theorem exists_of_bounded (bounded : machine.pc ≤ 256) : ∃ change, Prescribed machine change := by
  rcases machine.fetch_cases with outside | ⟨byte, here, unknown⟩ | ⟨opcode, here, cut⟩ |
    ⟨opcode, a, b, holds⟩
  · exact ⟨_, .outside (Nat.le_antisymm bounded outside)⟩
  · exact ⟨_, .unknown here (Opcode.decode?_eq_none_iff.mp unknown)⟩
  · exact ⟨_, .cutOff here cut⟩
  · cases answer : opcode.effect a b machine.store with
    | error fault => exact ⟨_, .refused holds (row_iff.mpr answer)⟩
    | ok effect => exact ⟨_, .carriedOut holds (row_iff.mpr answer)⟩

theorem isMadeBy_of_fetch_error (running : machine.status = .running) {fault : Fault}
    (missing : machine.fetch = .error fault) (sink : Sink) :
    (Change.stopped machine fault).IsMadeBy (machine.step sink) sink := by
  rw [step_of_fetch_error running missing]
  exact ⟨rfl, rfl, (List.append_nil _).symm⟩

theorem isMadeBy_of_refused (running : machine.status = .running) {opcode : Opcode} {a b : UInt8}
    {fault : Fault} (holds : machine.Holds opcode a b)
    (refusal : opcode.effect a b machine.store = .error fault) (sink : Sink) :
    (Change.stopped machine fault).IsMadeBy (machine.step sink) sink := by
  rw [step_of_refused running holds refusal]
  exact ⟨rfl, rfl, (List.append_nil _).symm⟩

theorem isMadeBy_of_printed (running : machine.status = .running) {opcode : Opcode} {a b : UInt8}
    {effect : Effect} (holds : machine.Holds opcode a b)
    (effect_eq : opcode.effect a b machine.store = .ok effect)
    (printing : (effect.print sink).2 = .ok ()) :
    (Change.ofEffect machine opcode effect).IsMadeBy (machine.step sink) sink := by
  have text := Effect.text_print_of_ok printing
  unfold Change.ofEffect
  cases flow : effect.flow with
  | next =>
    rw [step_of_next running holds effect_eq flow printing]
    exact ⟨rfl, rfl, text⟩
  | halt =>
    rw [step_of_halt running holds effect_eq flow printing]
    exact ⟨rfl, rfl, text⟩

/-- A step makes every change that is prescribed. -/
theorem isMadeBy_step (prescribed : Prescribed machine change)
    (running : machine.status = .running) (accepting : sink.Accepting) :
    change.IsMadeBy (machine.step sink) sink := by
  cases prescribed with
  | outside outside =>
    have missing := fetch_of_ge (Nat.le_of_eq outside.symm)
    rw [outside] at missing
    exact isMadeBy_of_fetch_error running missing sink
  | unknown here unknown =>
    have missing := fetch_of_unknown here (Opcode.decode?_eq_none_iff.mpr unknown)
    exact isMadeBy_of_fetch_error running missing sink
  | cutOff here cut => exact isMadeBy_of_fetch_error running (fetch_of_cut_off here cut) sink
  | refused holds row => exact isMadeBy_of_refused running holds (row_iff.mp row) sink
  | carriedOut holds row =>
    exact isMadeBy_of_printed running holds (row_iff.mp row)
      (Effect.print_of_accepting accepting _)

end Prescribed

/-- **A step follows the table.** Of a running machine whose program counter is
at most one behind memory, with a sink that takes everything, the table
prescribes one change and no other, and the step makes it. -/
theorem step_follows_table {machine : Machine} {sink : Sink} (running : machine.status = .running)
    (bounded : machine.pc ≤ 256) (accepting : sink.Accepting) :
    ∃ change : Change, (∀ other, Prescribed machine other ↔ other = change) ∧
      (machine.step sink).machine = change.machine ∧
      (machine.step sink).result = change.result ∧
      (machine.step sink).sink.text = sink.text ++ change.printed := by
  obtain ⟨change, prescribed⟩ := Prescribed.exists_of_bounded bounded
  have made := prescribed.isMadeBy_step running accepting
  refine ⟨change, fun other => ⟨fun h => ?_, ?_⟩, made.machine, made.result, made.text⟩
  · exact made.unique (h.isMadeBy_step running accepting)
  · rintro rfl
    exact prescribed

/-- An LDI whose second operand would lie behind memory: by the table no
operand is missed but the one at 256. -/
theorem step_follows_table_cut_off :
    let machine : Machine := { pc := 254, store := Store.initial.setCell 254 0x82 }
    (machine.step .unlimited).result = .error (.addressOutOfBounds 256) ∧
      (machine.step .unlimited).sink.text = [] := by
  intro machine
  have running : machine.status = .running := rfl
  obtain ⟨change, only, -, result, text⟩ :=
    step_follows_table running (by decide) Sink.accepting_unlimited
  have cut : Prescribed machine (.stopped machine (.addressOutOfBounds 256)) :=
    .cutOff (show _ = some (Opcode.encode .ldi) by decide +kernel) (by decide)
  rw [result, text, ← (only _).mp cut]
  exact ⟨rfl, rfl⟩

end ByteMachine
