import Mathlib.Data.List.Chain
import Mathlib.Data.List.Range
import ByteMachine.Proofs.Columns
import ByteMachine.Proofs.History
import ByteMachine.Proofs.Lines

/-!
# Traced runs

What the trace lines of a run tell. A line shows the cells that the step after it
fetches from and the registers that it reads, so the lines alone, even as texts, tell
where each step went on and what was printed (`trace_tells_run`).
-/

namespace ByteMachine

open Numeral

/-! ## Printed numbers -/

/-- A line for each number. -/
def numeralLines (values : List Nat) : List Char :=
  values.flatMap fun value => decimalDigits value ++ ['\n']

theorem numeralLines_append (xs ys : List Nat) :
    numeralLines (xs ++ ys) = numeralLines xs ++ numeralLines ys :=
  List.flatMap_append

/-- The line feeds separate the numerals, and each of them determines its number. -/
theorem numeralLines_injective {xs ys : List Nat} (same : numeralLines xs = numeralLines ys) :
    xs = ys := by
  induction xs generalizing ys with
  | nil =>
    cases ys with
    | nil => rfl
    | cons y ys => simp [numeralLines] at same
  | cons x xs ih =>
    cases ys with
    | nil => simp [numeralLines] at same
    | cons y ys =>
      simp only [numeralLines, List.flatMap_cons, List.append_assoc, List.singleton_append] at same
      obtain ⟨first, rest⟩ := Text.append_mark_inj (notMem_decimalDigits rfl x)
        (notMem_decimalDigits rfl y) same
      rw [decimalDigits_injective first, ih rest]

/-! ## One line -/

namespace TraceLine

/-- The program counter of the next line is behind the first cell and the operands that
its two top bits ask for. -/
def Leads (line next : TraceLine) : Prop :=
  ∃ byte, line.cells[0] = some byte ∧ next.pc = line.pc + 1 + (byte >>> 6).toNat

/-- The number that a line shows to be printed: the value of the register that the second
cell names, if the first cell is that of PRN. -/
def printed? (line : TraceLine) : Option Nat :=
  if line.cells[0] = some 0x47 then
    line.cells[1].bind fun operand =>
      if h : operand.toNat < 8 then some (line.registers.get ⟨operand.toNat, h⟩).toNat else none
  else none

end TraceLine

namespace Machine

variable {machine : Machine} {sink : Sink} {n : Nat}

theorem cells_traceLine (machine : Machine) {i : Nat} (inside : i < 3) :
    machine.traceLine.cells[i] = machine.store.memory.cell? (machine.pc + i) :=
  Vector.getElem_ofFn inside

/-- Just the whole PRN instructions whose operand names a register are shown to print. -/
theorem printed?_traceLine_iff {value : Nat} :
    machine.traceLine.printed? = some value ↔
      ∃ a b r, machine.Holds .prn a b ∧ Names a r ∧
        (machine.store.registers.get r).toNat = value := by
  unfold TraceLine.printed?
  rw [cells_traceLine machine (by decide), cells_traceLine machine (by decide)]
  constructor
  · intro shown
    split at shown
    · rename_i prn
      obtain ⟨a, operand, shown⟩ := Option.bind_eq_some_iff.mp shown
      split at shown
      · rename_i small
        exact ⟨a, 0, ⟨a.toNat, small⟩, ⟨prn, operand, rfl⟩, rfl, Option.some.inj shown⟩
      · cases shown
    · cases shown
  · rintro ⟨a, b, r, holds, names, rfl⟩
    have prn : machine.store.memory.cell? (machine.pc + 0) = some 0x47 := holds.here
    have operand : machine.store.memory.cell? (machine.pc + 1) = some a := holds.first
    have small : a.toNat < 8 := names ▸ r.isLt
    have register : (⟨a.toNat, small⟩ : Register) = r := Fin.ext names
    rw [if_pos prn, operand, Option.bind_some, dif_pos small, register]
    rfl

/-- With a sink that takes everything, a step prints what its line shows. -/
theorem text_step_of_accepting (running : machine.status = .running) (accepting : sink.Accepting) :
    (machine.step sink).sink.text =
      sink.text ++ numeralLines machine.traceLine.printed?.toList := by
  cases shown : machine.traceLine.printed? with
  | some value =>
    obtain ⟨a, b, r, holds, names, rfl⟩ := printed?_traceLine_iff.mp shown
    have printing := Effect.print_of_accepting accepting
    rw [step_of_next running holds (effect_eq_of_row (.prn names)) rfl (printing _),
      Effect.text_print_of_ok (printing _)]
    exact congrArg _ (List.append_nil _).symm
  | none =>
    have silent {opcode : Opcode} {a b : UInt8} {effect : Effect}
        (holds : machine.Holds opcode a b)
        (effect_eq : opcode.effect a b machine.store = .ok effect) : effect.printed = [] := by
      unfold Effect.printed
      cases line : effect.line with
      | none => rfl
      | some line =>
        obtain ⟨rfl, r, names, -⟩ := (row_iff.mpr effect_eq).line line
        rw [printed?_traceLine_iff.mpr ⟨a, b, r, holds, names, rfl⟩] at shown
        cases shown
    have case := step_case running sink
    generalize machine.step sink = outcome at case ⊢
    cases case with
    | unfetched | refused => exact (List.append_nil _).symm
    | unprinted _ _ printing =>
      rw [Effect.print_of_accepting accepting] at printing
      cases printing
    | next holds effect_eq _ printing | halt holds effect_eq _ printing =>
      exact (Effect.text_print_of_ok printing).trans (congrArg _ (silent holds effect_eq))

/-- A step that goes on moves as far as the first cell asks for. -/
theorem leads_of_step (goesOn : (machine.step sink).result = .ok .running) :
    machine.traceLine.Leads (machine.step sink).machine.traceLine := by
  obtain ⟨opcode, a, b, effect, holds, -, -, after, -⟩ := step_of_running goesOn
  refine ⟨opcode.encode, ?_, ?_⟩
  · rw [cells_traceLine machine (by decide)]
    exact holds.here
  · rw [after]
    change machine.pc + (opcode.operandCount + 1) = machine.pc + 1 + opcode.operandCount
    omega

/-! ## All lines -/

/-- The trace lines before the first `n` steps. -/
def traceLines (machine : Machine) (sink : Sink) (n : Nat) : List TraceLine :=
  (List.range n).map fun i => (machine.moment sink i).1.traceLine

theorem traceLines_succ (machine : Machine) (sink : Sink) (n : Nat) :
    machine.traceLines sink (n + 1) =
      machine.traceLines sink n ++ [(machine.moment sink n).1.traceLine] := by
  rw [traceLines, List.range_succ, List.map_append]
  rfl

theorem traceLines_tail (machine : Machine) (sink : Sink) (n : Nat) :
    machine.traceLine :: (machine.step sink).machine.traceLines (machine.step sink).sink n =
      machine.traceLines sink (n + 1) := by
  simp only [traceLines, moment_tail, List.range_succ_eq_map, List.map_cons, List.map_map]
  rfl

/-- A walk takes a line before each step of the run. -/
theorem lines_walk (ends : machine.EndsAt sink n) :
    (machine.walk sink).1 = machine.traceLines sink (n + 1) := by
  induction n generalizing machine sink with
  | zero =>
    have last : (machine.step sink).result ≠ .ok .running := ends.stops
    rw [walk_of_not_running last]
    rfl
  | succ n ih =>
    obtain ⟨goesOn, reaches⟩ := reaches_succ_iff.mp ends.reaches
    rw [walk_of_running goesOn, ← traceLines_tail,
      ← ih ⟨reaches, by rw [stepAt_tail]; exact ends.stops⟩]

/-- It does what the run does, and answers as the last step. -/
theorem outcome_walk (ends : machine.EndsAt sink n) :
    machine.run sink = (machine.walk sink).2.map (fun _ => ()) ∧
      (machine.walk sink).2.result = (machine.stepAt sink n).result := by
  induction n generalizing machine sink with
  | zero =>
    have last : (machine.step sink).result ≠ .ok .running := ends.stops
    rw [walk_of_not_running last, run_of_not_running last]
    exact ⟨rfl, rfl⟩
  | succ n ih =>
    obtain ⟨goesOn, reaches⟩ := reaches_succ_iff.mp ends.reaches
    obtain ⟨run, result⟩ := ih ⟨reaches, by rw [stepAt_tail]; exact ends.stops⟩
    rw [walk_of_running goesOn, run_of_running goesOn, run, ← stepAt_tail, ← result]
    exact ⟨rfl, rfl⟩

theorem isChain_traceLines (reaches : machine.Reaches sink n) :
    (machine.traceLines sink (n + 1)).IsChain TraceLine.Leads := by
  rw [traceLines, List.isChain_map, List.isChain_range_succ]
  intro i before
  exact leads_of_step (reaches i before)

/-- If the lines so far show what was printed, the step prints what its line adds. -/
theorem text_stepAt_of_moment (reaches : machine.Reaches sink n)
    (running : machine.status = .running) (accepting : sink.Accepting)
    (before : (machine.moment sink n).2.text =
      sink.text ++ numeralLines ((machine.traceLines sink n).filterMap TraceLine.printed?)) :
    (machine.stepAt sink n).sink.text =
      sink.text ++
        numeralLines ((machine.traceLines sink (n + 1)).filterMap TraceLine.printed?) := by
  have step := text_step_of_accepting (reaches.status_eq.trans running)
    (accepting.of_reply_eq reaches.reply_eq)
  have last : [(machine.moment sink n).1.traceLine].filterMap TraceLine.printed? =
      (machine.moment sink n).1.traceLine.printed?.toList := by
    cases shown : (machine.moment sink n).1.traceLine.printed? <;> simp [shown]
  rw [stepAt, step, before, traceLines_succ, List.filterMap_append, last, numeralLines_append,
    List.append_assoc]

theorem text_stepAt_of_accepting (reaches : machine.Reaches sink n)
    (running : machine.status = .running) (accepting : sink.Accepting) :
    (machine.stepAt sink n).sink.text =
      sink.text ++
        numeralLines ((machine.traceLines sink (n + 1)).filterMap TraceLine.printed?) := by
  induction n with
  | zero => exact text_stepAt_of_moment reaches running accepting (List.append_nil _).symm
  | succ n ih => exact text_stepAt_of_moment reaches running accepting (ih reaches.of_succ)

/-! ## What the texts tell -/

/-- What can be told of a run from the texts of its trace lines, the first of them taken
before the first step and the last one before the step that answered `last`. -/
structure TellRun (texts : List String) (last : Except Fault Status) (machine : Machine)
    (sink : Sink) : Prop where
  steps : ∃ n, machine.EndsAt sink n ∧ last = (machine.stepAt sink n).result ∧
    texts = (List.range (n + 1)).map (fun i => (machine.moment sink i).1.traceLine.text) ∧
    (machine.run sink).machine = (machine.stepAt sink n).machine ∧
    (machine.run sink).sink = (machine.stepAt sink n).sink ∧
    (machine.run sink).result = last.map fun _ => ()
  leads : (texts.map TraceLine.ofText).IsChain TraceLine.Leads
  prints : (machine.run sink).sink.text =
    sink.text ++ numeralLines ((texts.map TraceLine.ofText).filterMap TraceLine.printed?)
  unique : ∀ values, (machine.run sink).sink.text = sink.text ++ numeralLines values →
    values = (texts.map TraceLine.ofText).filterMap TraceLine.printed?

/-- **Trace lines tell the whole run.** Taking the trace line of a machine and then a
step, until a step answers that it does not go on, comes to the same as the run. The
texts of the lines, read back, tell where each step begins, and with a sink that takes
everything they tell what is printed, line by line. No other numbers are printed alike. -/
theorem trace_tells_run (machine : Machine) (running : machine.status = .running) (sink : Sink)
    (accepting : sink.Accepting) :
    machine.run sink = (machine.walk sink).2.map (fun _ => ()) ∧
      TellRun ((machine.walk sink).1.map TraceLine.text) (machine.walk sink).2.result machine
        sink := by
  obtain ⟨n, ends⟩ := exists_endsAt machine sink
  obtain ⟨run, result⟩ := outcome_walk ends
  have read : ((machine.walk sink).1.map TraceLine.text).map TraceLine.ofText =
      machine.traceLines sink (n + 1) := by
    rw [List.map_map, lines_walk ends]
    exact (List.map_congr_left fun line _ => line.ofText_text).trans (List.map_id _)
  have prints : (machine.run sink).sink.text =
      sink.text ++
        numeralLines ((machine.traceLines sink (n + 1)).filterMap TraceLine.printed?) := by
    rw [run_eq_joined ends]
    exact text_stepAt_of_accepting ends.reaches running accepting
  refine ⟨run, ⟨n, ends, result, ?_, ?_⟩, ?_, ?_, ?_⟩
  · rw [lines_walk ends, traceLines, List.map_map]
    rfl
  · rw [run_eq_joined ends, result]
    exact ⟨rfl, rfl, rfl⟩
  · rw [read]
    exact isChain_traceLines ends.reaches
  · rw [read]
    exact prints
  · intro values same
    rw [read]
    exact numeralLines_injective (List.append_cancel_left (same.symm.trans prints))

/-- The start of the stack is printed, and then the machine halts. -/
theorem trace_tells_run_prn_hlt :
    TellRun
      ["TRACE: 00 | 47 07 01 | 00 00 00 00 00 00 00 F4",
        "TRACE: 02 | 01 00 00 | 00 00 00 00 00 00 00 F4"]
      (.ok .halted) (initial.load [0x47, 0x07, 0x01] .unlimited).machine .unlimited := by
  obtain ⟨-, tell⟩ := trace_tells_run (initial.load [0x47, 0x07, 0x01] .unlimited).machine
    (by decide +kernel) .unlimited Sink.accepting_unlimited
  have texts : (((initial.load [0x47, 0x07, 0x01] .unlimited).machine.walk .unlimited).1.map
      TraceLine.text) =
      ["TRACE: 00 | 47 07 01 | 00 00 00 00 00 00 00 F4",
        "TRACE: 02 | 01 00 00 | 00 00 00 00 00 00 00 F4"] := by
    decide +kernel
  have last : ((initial.load [0x47, 0x07, 0x01] .unlimited).machine.walk .unlimited).2.result =
      .ok .halted := by
    decide +kernel
  rw [texts, last] at tell
  exact tell

end Machine

end ByteMachine
