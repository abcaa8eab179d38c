import ByteMachine.Machine.Run
import ByteMachine.Proofs.Rows

/-!
# The history of a run

A run taken apart into its steps. `moment` is the machine with its sink before
each step, `stepAt` what the step comes to, and `Reaches` says which steps are
taken. Every run has a last step (`exists_endsAt`), and is what its steps up to
that one come to together (`run_eq_joined`).
-/

namespace ByteMachine.Machine

/-- Machine and sink after `n` steps, whatever the steps answer. -/
def moment (machine : Machine) (sink : Sink) : (n : Nat) → Machine × Sink
  | 0 => (machine, sink)
  | n + 1 =>
    let before := machine.moment sink n
    let outcome := before.1.step before.2
    (outcome.machine, outcome.sink)

/-- Step number `n`, counted from zero. -/
def stepAt (machine : Machine) (sink : Sink) (n : Nat) : Outcome Status :=
  (machine.moment sink n).1.step (machine.moment sink n).2

/-- A run takes step number `n`, because every step before it goes on. -/
def Reaches (machine : Machine) (sink : Sink) (n : Nat) : Prop :=
  ∀ i < n, (machine.stepAt sink i).result = .ok .running

/-- Step number `n` is the last one of a run. -/
structure EndsAt (machine : Machine) (sink : Sink) (n : Nat) : Prop where
  reaches : machine.Reaches sink n
  stops : (machine.stepAt sink n).result ≠ .ok .running

/-- What the steps up to number `n` come to together. -/
def joined (machine : Machine) (sink : Sink) (n : Nat) : Outcome Unit where
  machine := (machine.stepAt sink n).machine
  sink := (machine.stepAt sink n).sink
  log := (List.range (n + 1)).flatMap fun i => (machine.stepAt sink i).log
  trace := (List.range (n + 1)).flatMap fun i => (machine.stepAt sink i).trace
  result := (machine.stepAt sink n).result.map fun _ => ()

variable {machine : Machine} {sink : Sink} {n : Nat}

/-! ## From the second step on -/

theorem moment_succ (machine : Machine) (sink : Sink) (n : Nat) :
    machine.moment sink (n + 1) = ((machine.stepAt sink n).machine, (machine.stepAt sink n).sink) :=
  rfl

theorem moment_tail (machine : Machine) (sink : Sink) (n : Nat) :
    (machine.step sink).machine.moment (machine.step sink).sink n =
      machine.moment sink (n + 1) := by
  induction n with
  | zero => rfl
  | succ n ih =>
    rw [moment_succ, moment_succ machine sink (n + 1)]
    unfold stepAt
    rw [ih]

theorem stepAt_tail (machine : Machine) (sink : Sink) (n : Nat) :
    (machine.step sink).machine.stepAt (machine.step sink).sink n =
      machine.stepAt sink (n + 1) := by
  unfold stepAt
  rw [moment_tail]

theorem reaches_zero (machine : Machine) (sink : Sink) : machine.Reaches sink 0 :=
  fun _ h => absurd h (Nat.not_lt_zero _)

theorem reaches_succ_iff :
    machine.Reaches sink (n + 1) ↔
      (machine.step sink).result = .ok .running ∧
        (machine.step sink).machine.Reaches (machine.step sink).sink n := by
  constructor
  · intro h
    refine ⟨h 0 (Nat.succ_pos n), fun i hi => ?_⟩
    rw [stepAt_tail]
    exact h (i + 1) (Nat.succ_lt_succ hi)
  · rintro ⟨first, rest⟩ i hi
    cases i with
    | zero => exact first
    | succ i =>
      rw [← stepAt_tail]
      exact rest i (Nat.lt_of_succ_lt_succ hi)

theorem Reaches.mono {m : Nat} (h : machine.Reaches sink n) (le : m ≤ n) :
    machine.Reaches sink m :=
  fun i hi => h i (Nat.lt_of_lt_of_le hi le)

theorem Reaches.of_succ (h : machine.Reaches sink (n + 1)) : machine.Reaches sink n :=
  h.mono (Nat.le_succ n)

theorem Reaches.last (h : machine.Reaches sink (n + 1)) :
    (machine.stepAt sink n).result = .ok .running :=
  h n (Nat.lt_succ_self n)

theorem Reaches.succ (h : machine.Reaches sink n)
    (goesOn : (machine.stepAt sink n).result = .ok .running) : machine.Reaches sink (n + 1) := by
  intro i hi
  rcases Nat.lt_succ_iff_lt_or_eq.mp hi with before | rfl
  · exact h i before
  · exact goesOn

/-! ## Along a run -/

/-- Each moment of a run but the first lies behind a whole instruction that was
carried out. -/
theorem Reaches.moment_eq (reaches : machine.Reaches sink (n + 1)) :
    ∃ opcode a b effect, (machine.moment sink n).1.Holds opcode a b ∧
      opcode.effect a b (machine.moment sink n).1.store = .ok effect ∧ effect.flow = .next ∧
      machine.moment sink (n + 1) =
        ({ (machine.moment sink n).1 with
            store := effect.store
            pc := (machine.moment sink n).1.pc + (opcode.operandCount + 1) },
          (effect.print (machine.moment sink n).2).1) := by
  obtain ⟨opcode, a, b, effect, holds, effect_eq, flow, after, printed⟩ :=
    step_of_running reaches.last
  refine ⟨opcode, a, b, effect, holds, effect_eq, flow, ?_⟩
  rw [moment_succ, ← after, ← printed]
  rfl

theorem Reaches.pc_succ (reaches : machine.Reaches sink (n + 1)) :
    (machine.moment sink n).1.pc + 2 ≤ (machine.moment sink (n + 1)).1.pc ∧
      (machine.moment sink (n + 1)).1.pc ≤ 256 :=
  pc_of_step_eq_running reaches.last

/-- The program counter never moves back. -/
theorem Reaches.pc_mono {i : Nat} (reaches : machine.Reaches sink n) (le : i ≤ n) :
    (machine.moment sink i).1.pc ≤ (machine.moment sink n).1.pc := by
  induction le with
  | refl => exact Nat.le_refl _
  | step _ ih =>
    have before := ih reaches.of_succ
    have moved := reaches.pc_succ.1
    exact Nat.le_trans before (Nat.le_trans (Nat.le_add_right _ 2) moved)

theorem Reaches.status_eq (reaches : machine.Reaches sink n) :
    (machine.moment sink n).1.status = machine.status := by
  induction n with
  | zero => rfl
  | succ n ih =>
    obtain ⟨opcode, a, b, effect, -, -, -, next⟩ := reaches.moment_eq
    rw [next]
    exact ih reaches.of_succ

theorem Reaches.reply_eq (reaches : machine.Reaches sink n) :
    (machine.moment sink n).2.reply = sink.reply := by
  induction n with
  | zero => rfl
  | succ n ih =>
    obtain ⟨opcode, a, b, effect, -, -, -, next⟩ := reaches.moment_eq
    rw [next, Effect.reply_print]
    exact ih reaches.of_succ

/-- What was printed before a step of a run is the beginning of what is printed
after it. -/
theorem Reaches.text_stepAt (reaches : machine.Reaches sink n)
    (running : machine.status = .running) :
    (machine.moment sink n).2.text <+: (machine.stepAt sink n).sink.text := by
  obtain ⟨taken, text⟩ := text_step (reaches.status_eq.trans running) (machine.moment sink n).2
  exact ⟨taken, text.symm⟩

theorem Reaches.text_mono {i : Nat} (reaches : machine.Reaches sink n)
    (running : machine.status = .running) (le : i ≤ n) :
    (machine.moment sink i).2.text <+: (machine.moment sink n).2.text := by
  induction le with
  | refl => exact List.prefix_refl _
  | step _ ih => exact (ih reaches.of_succ).trans (reaches.of_succ.text_stepAt running)

theorem Reaches.text_stepAt_mono {i : Nat} (reaches : machine.Reaches sink n)
    (running : machine.status = .running) (le : i ≤ n) :
    (machine.stepAt sink i).sink.text <+: (machine.stepAt sink n).sink.text := by
  rcases Nat.eq_or_lt_of_le le with rfl | before
  · exact List.prefix_refl _
  · exact (reaches.text_mono running before).trans (reaches.text_stepAt running)

/-! ## What a PUSH stores -/

/-- The instruction at the program counter is a PUSH, which stores into the cell
at `address` if it does not fail. -/
def PushesTo (machine : Machine) (address : Nat) : Prop :=
  (∃ a b, machine.Holds .push a b) ∧ (machine.store.sp - 1).toNat = address

/-- A cell that no PUSH of a run stored into is as it was. -/
theorem Reaches.cell?_eq (reaches : machine.Reaches sink n) {address : Nat}
    (spared : ∀ i < n, ¬ (machine.moment sink i).1.PushesTo address) :
    (machine.moment sink n).1.store.memory.cell? address =
      machine.store.memory.cell? address := by
  induction n with
  | zero => rfl
  | succ n ih =>
    obtain ⟨opcode, a, b, effect, holds, effect_eq, -, next⟩ := reaches.moment_eq
    have before := ih reaches.of_succ fun i lt => spared i (Nat.lt_succ_of_lt lt)
    rw [next]
    rcases (row_iff.mpr effect_eq).memory with same | ⟨rfl, value, stored⟩
    · dsimp only
      rw [same, before]
    · have other : ((machine.moment sink n).1.store.sp - 1).toNat ≠ address := by
        intro hit
        exact spared n (Nat.lt_succ_self n) ⟨⟨a, b, holds⟩, hit⟩
      dsimp only
      rw [stored, Memory.cell?_set_other _ other, before]

/-! ## The last step -/

/-- Another run that gets as far and has the same answer there ends there too. -/
theorem EndsAt.of_result_eq {other : Machine} {otherSink : Sink} (ends : machine.EndsAt sink n)
    (reaches : other.Reaches otherSink n)
    (same : (other.stepAt otherSink n).result = (machine.stepAt sink n).result) :
    other.EndsAt otherSink n := by
  refine ⟨reaches, ?_⟩
  rw [same]
  exact ends.stops

theorem exists_endsAt (machine : Machine) (sink : Sink) : ∃ n, machine.EndsAt sink n := by
  -- each step that goes on leaves less of memory ahead of the program counter
  induction left : 256 - machine.pc using Nat.strongRecOn generalizing machine sink with
  | ind left ih =>
    subst left
    by_cases goesOn : (machine.step sink).result = .ok .running
    · obtain ⟨raises, within⟩ := pc_of_step_eq_running goesOn
      obtain ⟨n, reaches, stops⟩ :=
        ih (256 - (machine.step sink).machine.pc) (by omega) _ (machine.step sink).sink rfl
      refine ⟨n + 1, reaches_succ_iff.mpr ⟨goesOn, reaches⟩, ?_⟩
      rw [← stepAt_tail]
      exact stops
    · exact ⟨0, reaches_zero machine sink, goesOn⟩

theorem joined_tail (machine : Machine) (sink : Sink) (n : Nat) :
    ((machine.step sink).machine.joined (machine.step sink).sink n).after (machine.step sink) =
      machine.joined sink (n + 1) := by
  unfold Outcome.after joined
  simp only [stepAt_tail, List.range_succ_eq_map (n := n + 1), List.flatMap_cons, List.flatMap_map]
  rfl

/-- A run is what its steps up to the last one come to together. -/
theorem run_eq_joined (h : machine.EndsAt sink n) : machine.run sink = machine.joined sink n := by
  induction n generalizing machine sink with
  | zero =>
    have ends : (machine.step sink).result ≠ .ok .running := h.stops
    rw [run_of_not_running ends]
    simp [Outcome.map, joined, stepAt, moment]
  | succ n ih =>
    obtain ⟨goesOn, reaches⟩ := reaches_succ_iff.mp h.reaches
    rw [run_of_running goesOn, ih ⟨reaches, by rw [stepAt_tail]; exact h.stops⟩, joined_tail]

/-! ## What a run keeps -/

variable (R : Machine → Machine → Prop)

theorem rel_stepAt (trans : ∀ ⦃a b c⦄, R a b → R b c → R a c)
    (step : ∀ machine sink, R machine (machine.step sink).machine) (machine : Machine)
    (sink : Sink) (n : Nat) : R machine (machine.stepAt sink n).machine := by
  induction n with
  | zero => exact step machine sink
  | succ n ih => exact trans ih (step _ _)

/-- What leads from a machine to what a step makes of it, and can be chained, leads
to what a run makes of it. -/
theorem rel_run (trans : ∀ ⦃a b c⦄, R a b → R b c → R a c)
    (step : ∀ machine sink, R machine (machine.step sink).machine) (machine : Machine)
    (sink : Sink) : R machine (machine.run sink).machine := by
  obtain ⟨n, ends⟩ := exists_endsAt machine sink
  rw [run_eq_joined ends]
  exact rel_stepAt R trans step machine sink n

end ByteMachine.Machine
