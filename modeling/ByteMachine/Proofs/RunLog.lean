import ByteMachine.Proofs.ItemTexts
import ByteMachine.Proofs.Stopping

/-!
# The log of a run

What a run reports. A step that calls a handler reports the instruction before it is
carried out, and a step that does not go on reports how it ended. So a run reports one
instruction for each handler that it calls, at rising addresses, and then its end, once
(`run_is_logged`). The end is reported with the program counter as it is then; that it is
also the address of the last instruction means that a handler was called there.
-/

namespace ByteMachine

open Numeral

/-! ## Dispatches -/

/-- A handler is called for the instruction at `address`, while memory holds `cells`. -/
structure Dispatch where
  address : Nat
  cells : List UInt8
deriving DecidableEq, Repr

namespace Dispatch

/-- How the instruction is shown. -/
def shown (dispatch : Dispatch) : String :=
  (disassembleAt dispatch.cells dispatch.address).1

def text (dispatch : Dispatch) : String :=
  "TRACE " ++ hex 2 dispatch.address ++ ": " ++ dispatch.shown

def record (dispatch : Dispatch) : Log.Record :=
  .dispatched dispatch.address (itemAt? dispatch.cells dispatch.address)

theorem text_record (dispatch : Dispatch) : dispatch.record.text = dispatch.text := by
  apply String.toList_inj.mp
  simp [record, text, shown, disassembleAt, Log.Record.text, Log.Record.level, Log.Level.name,
    Log.Record.message]

end Dispatch

/-- How the end of a run is reported. -/
def endText (address : Nat) : Except Fault Unit → String
  | .ok _ => "DEBUG halted at " ++ hex 2 address
  | .error fault => "DEBUG fault at " ++ hex 2 address ++ ": " ++ fault.message

def endRecord (address : Nat) : Except Fault Unit → Log.Record
  | .ok _ => .halted address
  | .error fault => .stopped address fault

theorem text_endRecord (address : Nat) (result : Except Fault Unit) :
    (endRecord address result).text = endText address result := by
  apply String.toList_inj.mp
  unfold endRecord endText
  cases result with
  | ok _ => simp [Log.Record.text, Log.Record.level, Log.Level.name, Log.Record.message]
  | error fault => simp [Log.Record.text, Log.Record.level, Log.Level.name, Log.Record.message]

/-- What a step with this answer reports last, which is nothing if it goes on. -/
def endRecord? (address : Nat) : Except Fault Status → Option Log.Record
  | .ok .running => none
  | .ok _ => some (.halted address)
  | .error fault => some (.stopped address fault)

theorem endRecord?_of_stops {result : Except Fault Status} (stops : result ≠ .ok .running)
    (address : Nat) :
    endRecord? address result = some (endRecord address (result.map fun _ => ())) := by
  cases result with
  | error fault => rfl
  | ok status =>
    cases status with
    | running => exact absurd rfl stops
    | halted | faulted => rfl

namespace Machine

variable {machine : Machine} {sink : Sink} {n : Nat} {opcode : Opcode} {a b : UInt8}

/-- The dispatch that a step of the running machine makes, if anything is fetched. -/
def dispatch? (machine : Machine) : Option Dispatch :=
  match machine.fetch with
  | .ok _ => some ⟨machine.pc, machine.store.memory.toList⟩
  | .error _ => none

/-- The dispatches of the first `n` steps. -/
def dispatches (machine : Machine) (sink : Sink) (n : Nat) : List Dispatch :=
  (List.range n).filterMap fun i => (machine.moment sink i).1.dispatch?

theorem dispatch?_of_holds (holds : machine.Holds opcode a b) :
    machine.dispatch? = some ⟨machine.pc, machine.store.memory.toList⟩ := by
  unfold dispatch?
  rw [fetch_of_holds holds]

theorem dispatch?_of_fetch_error {fault : Fault} (missing : machine.fetch = .error fault) :
    machine.dispatch? = none := by
  unfold dispatch?
  rw [missing]

/-- A dispatch is at the program counter, where a whole instruction stands. -/
theorem eq_of_dispatch? {dispatch : Dispatch} (made : machine.dispatch? = some dispatch) :
    dispatch = ⟨machine.pc, machine.store.memory.toList⟩ ∧
      ∃ opcode a b, machine.Holds opcode a b := by
  cases fetched : machine.fetch with
  | error fault =>
    rw [dispatch?_of_fetch_error fetched] at made
    cases made
  | ok _ =>
    obtain ⟨opcode, a, b, holds⟩ := holds_of_fetch_eq_ok fetched
    rw [dispatch?_of_holds holds] at made
    exact ⟨(Option.some.inj made).symm, opcode, a, b, holds⟩

/-- There is a dispatch just where a handler is called. -/
theorem isSome_dispatch?_iff (running : machine.status = .running) (sink : Sink) :
    machine.dispatch?.isSome ↔ ∃ handler a b, machine.Calls sink handler a b := by
  constructor
  · intro made
    obtain ⟨dispatch, made⟩ := Option.isSome_iff_exists.mp made
    obtain ⟨-, opcode, a, b, holds⟩ := eq_of_dispatch? made
    exact ⟨_, _, _, calls_of_fetch running (fetch_of_holds holds) sink⟩
  · rintro ⟨handler, a, b, calls⟩
    obtain ⟨length, fetched⟩ := calls.fetched
    obtain ⟨opcode, a, b, holds⟩ := holds_of_fetch_eq_ok fetched
    rw [dispatch?_of_holds holds]
    rfl

/-- What is dispatched is shown neither as data nor as nothing. -/
theorem shown_of_dispatch? {dispatch : Dispatch} (made : machine.dispatch? = some dispatch) :
    dispatch.shown ≠ "??" ∧ (Item.Phrase.ofText dispatch.shown).word ≠ "DB" := by
  obtain ⟨rfl, opcode, a, b, holds⟩ := eq_of_dispatch? made
  obtain ⟨operands, item, whole, -, -⟩ := itemAt?_of_holds holds
  have word : (Item.Phrase.ofText (Item.instruction opcode operands).text).word =
      opcode.mnemonic := by
    rw [Item.Phrase.ofText_instruction whole]
  unfold Dispatch.shown disassembleAt
  rw [item]
  obtain ⟨noData, noEnd⟩ := Item.mnemonic_ne_marks opcode
  refine ⟨?_, ?_⟩
  · intro same
    have marks : (Item.Phrase.ofText "??").word = "??" := by decide
    dsimp only [Item.textOf] at same
    rw [same, marks] at word
    exact noEnd word.symm
  · intro same
    exact noData (word.symm.trans same)

/-! ## What one step reports -/

/-- A step reports its dispatch and its end. -/
theorem log_step (running : machine.status = .running) (sink : Sink) :
    (machine.step sink).log =
      (machine.dispatch?.map Dispatch.record).toList ++
        (endRecord? machine.pc (machine.step sink).result).toList := by
  have case := step_case running sink
  generalize machine.step sink = outcome at case ⊢
  cases case with
  | unfetched missing =>
    rw [dispatch?_of_fetch_error missing]
    rfl
  | refused holds | unprinted holds | next holds | halt holds =>
    rw [dispatch?_of_holds holds]
    rfl

/-- Only a step that goes on moves the program counter. -/
theorem pc_step_of_stops (running : machine.status = .running)
    (stops : (machine.step sink).result ≠ .ok .running) :
    (machine.step sink).machine.pc = machine.pc := by
  have case := step_case running sink
  generalize machine.step sink = outcome at case stops ⊢
  cases case with
  | unfetched | refused | unprinted | halt => rfl
  | next => exact absurd rfl stops

/-- Where nothing is fetched, the step fails for the lack of a cell or of an
instruction, and with a handler called it does not. -/
theorem isSome_dispatch?_iff_result (running : machine.status = .running) (sink : Sink) :
    machine.dispatch?.isSome ↔
      (∀ address byte, (machine.step sink).result ≠ .error (.unknownInstruction address byte)) ∧
        ∀ address, (machine.step sink).result ≠ .error (.addressOutOfBounds address) := by
  cases fetched : machine.fetch with
  | error fault =>
    have failed : (machine.step sink).result = .error fault := by
      rw [step_of_fetch_error running fetched]
    rw [dispatch?_of_fetch_error fetched, failed]
    constructor
    · intro made
      cases made
    · rintro ⟨known, inside⟩
      rcases fetch_eq_error fetched with ⟨address, rfl⟩ | ⟨byte, rfl⟩
      · exact absurd rfl (inside address)
      · exact absurd rfl (known machine.pc byte)
  | ok _ =>
    obtain ⟨opcode, a, b, holds⟩ := holds_of_fetch_eq_ok fetched
    rw [dispatch?_of_holds holds]
    refine iff_of_true rfl ⟨?_, ?_⟩
    · intro address byte failed
      rcases step_fault_of_holds running holds failed with ⟨_, same⟩ | same | ⟨_, same⟩
      all_goals cases same
    · intro address failed
      rcases step_fault_of_holds running holds failed with ⟨_, same⟩ | same | ⟨_, same⟩
      all_goals cases same

/-! ## What a run reports -/

theorem dispatches_succ (machine : Machine) (sink : Sink) (n : Nat) :
    machine.dispatches sink (n + 1) =
      machine.dispatches sink n ++ (machine.moment sink n).1.dispatch?.toList := by
  unfold dispatches
  rw [List.range_succ, List.filterMap_append]
  cases made : (machine.moment sink n).1.dispatch? <;> simp [made]

theorem mem_dispatches {dispatch : Dispatch} :
    dispatch ∈ machine.dispatches sink n ↔
      ∃ i < n, (machine.moment sink i).1.dispatch? = some dispatch := by
  simp [dispatches]

theorem Reaches.log_stepAt (reaches : machine.Reaches sink n)
    (running : machine.status = .running) :
    (machine.stepAt sink n).log =
      ((machine.moment sink n).1.dispatch?.map Dispatch.record).toList ++
        (endRecord? (machine.moment sink n).1.pc (machine.stepAt sink n).result).toList :=
  log_step (reaches.status_eq.trans running) (machine.moment sink n).2

/-- Steps that go on report nothing but their dispatches. -/
theorem Reaches.log_eq (reaches : machine.Reaches sink n) (running : machine.status = .running) :
    (List.range n).flatMap (fun i => (machine.stepAt sink i).log) =
      (machine.dispatches sink n).map Dispatch.record := by
  induction n with
  | zero => rfl
  | succ n ih =>
    have step := reaches.of_succ.log_stepAt running
    rw [reaches.last] at step
    rw [List.range_succ, List.flatMap_append, ih reaches.of_succ, dispatches_succ,
      List.map_append, List.flatMap_singleton, step]
    cases (machine.moment sink n).1.dispatch? <;> rfl

/-- Every dispatch lies before the place that the run has got to. -/
theorem Reaches.address_lt (reaches : machine.Reaches sink n) {dispatch : Dispatch}
    (made : dispatch ∈ machine.dispatches sink n) :
    dispatch.address < (machine.moment sink n).1.pc := by
  obtain ⟨i, before, here⟩ := mem_dispatches.mp made
  obtain ⟨rfl, -⟩ := eq_of_dispatch? here
  have moved := (reaches.mono before).pc_succ.1
  have rest : (machine.moment sink (i + 1)).1.pc ≤ (machine.moment sink n).1.pc :=
    reaches.pc_mono before
  dsimp only
  omega

theorem Reaches.pairwise_dispatches (reaches : machine.Reaches sink n) :
    (machine.dispatches sink (n + 1)).Pairwise
      fun dispatch later => dispatch.address < later.address := by
  induction n with
  | zero =>
    rw [dispatches_succ]
    cases (machine.moment sink 0).1.dispatch? with
    | none => exact List.Pairwise.nil
    | some dispatch => exact List.pairwise_singleton _ _
  | succ n ih =>
    rw [dispatches_succ, List.pairwise_append]
    refine ⟨ih reaches.of_succ, ?_, ?_⟩
    · cases (machine.moment sink (n + 1)).1.dispatch? with
      | none => exact List.Pairwise.nil
      | some dispatch => exact List.pairwise_singleton _ _
    · intro dispatch made later here
      obtain ⟨rfl, -⟩ := eq_of_dispatch? (Option.mem_toList.mp here)
      exact reaches.address_lt made

/-- The last dispatch is at the program counter if the step there makes one, and
otherwise it was before. -/
theorem Reaches.getLast?_dispatches (reaches : machine.Reaches sink n) :
    (machine.dispatches sink (n + 1)).getLast?.map Dispatch.address =
        some (machine.moment sink n).1.pc ↔
      (machine.moment sink n).1.dispatch?.isSome := by
  rw [dispatches_succ]
  cases made : (machine.moment sink n).1.dispatch? with
  | some dispatch =>
    obtain ⟨rfl, -⟩ := eq_of_dispatch? made
    simp
  | none =>
    refine iff_of_false ?_ (by simp)
    intro last
    obtain ⟨dispatch, final, address⟩ := Option.map_eq_some_iff.mp last
    rw [Option.toList_none, List.append_nil] at final
    have before := reaches.address_lt (List.mem_of_getLast? final)
    omega

/-- What a run reports that ends with step number `n`, with the program counter at `address`:
a record for each dispatch, and one for the end. -/
structure LoggedAs (machine : Machine) (sink : Sink) (n address : Nat) (result : Except Fault Unit)
    (texts : List String) : Prop where
  records : texts = (machine.dispatches sink (n + 1)).map Dispatch.text ++ [endText address result]
  called : ∀ i ≤ n, (machine.moment sink i).1.dispatch?.isSome ↔
    ∃ handler a b, (machine.moment sink i).1.Calls (machine.moment sink i).2 handler a b
  rising : (machine.dispatches sink (n + 1)).Pairwise
    fun dispatch later => dispatch.address < later.address
  code : ∀ dispatch ∈ machine.dispatches sink (n + 1),
    dispatch.shown ≠ "??" ∧ (Item.Phrase.ofText dispatch.shown).word ≠ "DB"
  last_iff : (machine.dispatches sink (n + 1)).getLast?.map Dispatch.address = some address ↔
    ∃ handler a b, (machine.moment sink n).1.Calls (machine.moment sink n).2 handler a b
  result_iff :
    (∃ handler a b, (machine.moment sink n).1.Calls (machine.moment sink n).2 handler a b) ↔
      (∀ missed byte, result ≠ .error (.unknownInstruction missed byte)) ∧
        ∀ missed, result ≠ .error (.addressOutOfBounds missed)

theorem pc_run (running : machine.status = .running) (ends : machine.EndsAt sink n) :
    (machine.run sink).machine.pc = (machine.moment sink n).1.pc := by
  rw [machine_run_of_endsAt ends]
  exact pc_step_of_stops (ends.reaches.status_eq.trans running) ends.stops

theorem result_run (ends : machine.EndsAt sink n) :
    (machine.run sink).result = (machine.stepAt sink n).result.map fun _ => () := by
  rw [run_eq_joined ends]
  rfl

theorem log_run (running : machine.status = .running) (ends : machine.EndsAt sink n) :
    (machine.run sink).log = (machine.dispatches sink (n + 1)).map Dispatch.record ++
      [endRecord (machine.run sink).machine.pc (machine.run sink).result] := by
  have step := ends.reaches.log_stepAt running
  rw [endRecord?_of_stops ends.stops] at step
  rw [pc_run running ends, result_run ends, run_eq_joined ends]
  unfold joined
  dsimp only
  rw [List.range_succ, List.flatMap_append, ends.reaches.log_eq running, List.flatMap_singleton,
    dispatches_succ, List.map_append, List.append_assoc, step]
  cases (machine.moment sink n).1.dispatch? <;> rfl

theorem loggedAs_run (running : machine.status = .running) (ends : machine.EndsAt sink n) :
    machine.LoggedAs sink n (machine.run sink).machine.pc (machine.run sink).result
      ((machine.run sink).log.map Log.Record.text) := by
  have started (i : Nat) (before : i ≤ n) : (machine.moment sink i).1.status = .running :=
    (ends.reaches.mono before).status_eq.trans running
  refine ⟨?_, ?_, ?_, ?_, ?_, ?_⟩
  · rw [log_run running ends, List.map_append, List.map_map, List.map_singleton, text_endRecord]
    exact congrArg (· ++ _) (List.map_congr_left fun dispatch _ => dispatch.text_record)
  · intro i before
    exact isSome_dispatch?_iff (started i before) _
  · exact ends.reaches.pairwise_dispatches
  · intro dispatch made
    obtain ⟨i, -, here⟩ := mem_dispatches.mp made
    exact shown_of_dispatch? here
  · rw [pc_run running ends, ends.reaches.getLast?_dispatches]
    exact isSome_dispatch?_iff (started n (Nat.le_refl n)) _
  · rw [← isSome_dispatch?_iff (started n (Nat.le_refl n)), result_run ends,
      isSome_dispatch?_iff_result (started n (Nat.le_refl n)) (machine.moment sink n).2, ← stepAt]
    cases (machine.stepAt sink n).result <;> simp [Except.map]

/-! ## Loading and running -/

theorem log_load {program : List UInt8} (fits : program.length ≤ Memory.capacity)
    (machine : Machine) (sink : Sink) :
    (machine.load program sink).log = [.loaded program.length] := by
  unfold load
  cases loaded : machine.store.memory.load program with
  | ok memory => rfl
  | error fault => exact absurd fits (Nat.not_le.mpr (Memory.load_eq_error_iff.mp loaded).1)

theorem text_loaded (length : Nat) :
    (Log.Record.loaded length).text = "DEBUG loaded " ++ decimal length ++ " byte program" := by
  apply String.toList_inj.mp
  simp [Log.Record.text, Log.Record.level, Log.Level.name, Log.Record.message]

/-- **Runs are logged as they go.** Loading a program and running it reports nothing if the
program is too long. Otherwise it reports that the program was loaded, then the instruction
for each handler that is called, as it stands in memory at that time and at rising addresses,
and last the end of the run with the final program counter. The last instruction is at that
address unless the run ended for the lack of a cell or of an instruction. A machine that is
stopped reports nothing when it is asked to go on. -/
theorem run_is_logged (machine : Machine) (sink : Sink) :
    (machine.status = .running → ∀ program : List UInt8,
      (Memory.capacity < program.length → (machine.runWith program sink).log = []) ∧
      (program.length ≤ Memory.capacity →
        ∃ n texts, (machine.load program sink).machine.EndsAt sink n ∧
          (machine.runWith program sink).log.map Log.Record.text =
            ("DEBUG loaded " ++ decimal program.length ++ " byte program") :: texts ∧
          (machine.load program sink).machine.LoggedAs sink n
            (machine.runWith program sink).machine.pc (machine.runWith program sink).result
            texts)) ∧
    (machine.status ≠ .running → (machine.step sink).log = [] ∧ (machine.run sink).log = []) := by
  refine ⟨fun running program => ⟨?_, ?_⟩, ?_⟩
  · intro large
    rw [runWith_of_large large]
    rfl
  · intro fits
    obtain ⟨n, ends⟩ := exists_endsAt (machine.load program sink).machine sink
    have loaded := (keeps_load fits machine sink).status.trans running
    rw [runWith_eq_after fits]
    refine ⟨n, _, ends, ?_, loggedAs_run loaded ends⟩
    rw [Outcome.after, log_load fits, List.map_append, List.map_singleton, text_loaded]
    rfl
  · intro stopped
    obtain ⟨reason, why⟩ : ∃ reason, machine.status.reason? = some reason := by
      cases status : machine.status with
      | running => exact absurd status stopped
      | halted | faulted => exact ⟨_, rfl⟩
    rw [step_of_reason why, run_of_reason why]
    exact ⟨rfl, rfl⟩

/-- The PUSH puts a zero where the program has PRN, so PRN is neither carried out nor
reported. -/
theorem run_is_logged_over_own_code :
    let program : List UInt8 := [0x82, 0x07, 0x06, 0x45, 0x00, 0x47, 0x00]
    let faulted := (initial.runWith program .unlimited).machine
    (∃ n, (initial.load program .unlimited).machine.LoggedAs .unlimited n 5
      (.error (.unknownInstruction 5 0x00))
      ["TRACE 00: LDI R7,6", "TRACE 03: PUSH R0",
        "DEBUG fault at 05: unknown instruction 0x00 at address 0x05"]) ∧
    (initial.runWith (List.replicate 257 0x01) .unlimited).log = [] ∧
    (faulted.step .unlimited).log = [] := by
  intro program faulted
  obtain ⟨runs, -⟩ := run_is_logged initial .unlimited
  obtain ⟨-, stopped⟩ := run_is_logged faulted .unlimited
  have large : Memory.capacity < (List.replicate 257 (0x01 : UInt8)).length := by
    rw [List.length_replicate]
    decide
  refine ⟨?_, (runs rfl _).1 large, (stopped (by decide +kernel)).1⟩
  obtain ⟨n, texts, -, log, logged⟩ := (runs rfl program).2 (by decide)
  have shown : (initial.runWith program .unlimited).log.map Log.Record.text =
      ["DEBUG loaded 7 byte program", "TRACE 00: LDI R7,6", "TRACE 03: PUSH R0",
        "DEBUG fault at 05: unknown instruction 0x00 at address 0x05"] := by
    decide +kernel
  obtain ⟨-, rfl⟩ := List.cons.inj (shown.symm.trans log)
  have pc : (initial.runWith program .unlimited).machine.pc = 5 := by decide +kernel
  have result : (initial.runWith program .unlimited).result =
      .error (.unknownInstruction 5 0x00) := by
    decide +kernel
  rw [pc, result] at logged
  exact ⟨n, logged⟩

end Machine

end ByteMachine
