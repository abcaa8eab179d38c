import Mathlib.Data.Nat.Find
import ByteMachine.Proofs.Reports

/-!
# Output to a full device

What the command reports if its standard output is a full device, where each line fails
and the flush behind it fails too. Beside the report with an output that works: a run is
the same until it prints for the first time, so that only a run that prints fails for its
output, and every other one is reported as it is elsewhere. A listing fails if there is
anything to list (`full_output_is_reported`).
-/

namespace ByteMachine

/-! ## Full devices -/

namespace Sink

/-- No line can be completed. A part of it may be taken before it fails. -/
def FailsLines (sink : Sink) (error : IoError) : Prop :=
  ∀ line, (sink.writeLine line).2 = .error error

/-- The sink is standard output on a device without space. A line fails, and what is left
of it fails again when the output is flushed. -/
structure Full (sink : Sink) : Prop where
  failsLines : sink.FailsLines (.ofErrno .noSpaceLeft)
  retry : sink.retry (.ofErrno .noSpaceLeft) = .error (.ofErrno .noSpaceLeft)

/-- Output that is held back, and so accepted, until its line is complete. Only then the
device is asked, and fails. -/
def lineBuffered (error : IoError) : Sink where
  reply _ _ offered := if '\n' ∈ offered then .refused error else .accepted offered.length

variable {sink : Sink} {error : IoError}

theorem writeGranted_of_le {granted : Nat} {offered : List Char}
    (all : offered.length ≤ granted) : (sink.writeGranted granted offered).2 = .ok () := by
  induction offered generalizing sink granted with
  | nil => rfl
  | cons c rest ih =>
    cases granted with
    | zero => exact absurd all (Nat.not_succ_le_zero _)
    | succ granted => exact ih (Nat.le_of_succ_le_succ all)

theorem write_lineBuffered_of_mem (same : sink.reply = (lineBuffered error).reply)
    {text : List Char} (feed : '\n' ∈ text) : (sink.write text).2 = .error error := by
  obtain ⟨c, rest, rfl⟩ := List.exists_cons_of_ne_nil (List.ne_nil_of_mem feed)
  rw [write, writeGranted, same]
  simp only [lineBuffered, if_pos feed]

theorem write_lineBuffered_of_notMem {text : List Char} (noFeed : '\n' ∉ text) :
    ((lineBuffered error).write text).2 = .ok () := by
  cases text with
  | nil => rfl
  | cons c rest =>
    rw [write, writeGranted]
    simp only [lineBuffered, if_neg noFeed, List.length_cons]
    exact writeGranted_of_le (Nat.le_refl _)

theorem failsLines_lineBuffered (error : IoError) : (lineBuffered error).FailsLines error := by
  intro line
  by_cases feed : '\n' ∈ line
  · have failed : ((lineBuffered error).write line).2 = .error error :=
      write_lineBuffered_of_mem rfl feed
    rw [writeLine_of_error failed]
  · rw [writeLine_of_ok (write_lineBuffered_of_notMem feed)]
    exact write_lineBuffered_of_mem (reply_write _ _) (List.mem_singleton_self _)

end Sink

/-! ## Steps that print -/

namespace Machine

variable {machine : Machine} {working sink : Sink} {error : IoError} {n : Nat}

/-- The step carries out a PRN. -/
def PrintsIn (machine : Machine) (sink : Sink) : Prop :=
  (∃ a b, machine.Holds .prn a b) ∧ (machine.step sink).result = .ok .running

/-- Step number `n` of a run carries out a PRN. -/
def PrintsAt (machine : Machine) (sink : Sink) (n : Nat) : Prop :=
  machine.Reaches sink n ∧ (machine.moment sink n).1.PrintsIn (machine.moment sink n).2

/-- Step number `n` of a run is the first to carry out a PRN. -/
structure FirstPrintsAt (machine : Machine) (sink : Sink) (n : Nat) : Prop where
  prints : machine.PrintsAt sink n
  silent : ∀ i < n, ¬ machine.PrintsAt sink i

/-- A step that does not print has nothing to do with its sink. -/
theorem step_of_silent (running : machine.status = .running) (accepting : working.Accepting)
    (silent : ¬ machine.PrintsIn working) (sink : Sink) :
    machine.step sink = { machine.step working with sink } := by
  have case := step_case running working
  generalize answer : machine.step working = outcome at case
  cases case with
  | unfetched missing => rw [step_of_fetch_error running missing]
  | refused holds refusal => rw [step_of_refused running holds refusal]
  | unprinted _ _ printing =>
    rw [Effect.print_of_accepting accepting] at printing
    cases printing
  | @next opcode a b effect holds effect_eq flow _ =>
    cases line : effect.line with
    | none =>
      have print := Effect.print_of_silent line sink
      rw [step_of_next running holds effect_eq flow (by rw [print]), print]
    | some digits =>
      obtain ⟨rfl, -⟩ := (row_iff.mpr effect_eq).line line
      have goesOn : (machine.step working).result = .ok .running := by rw [answer]
      exact absurd ⟨⟨a, b, holds⟩, goesOn⟩ silent
  | @halt opcode a b effect holds effect_eq flow _ =>
    cases line : effect.line with
    | none =>
      have print := Effect.print_of_silent line sink
      rw [step_of_halt running holds effect_eq flow (by rw [print]), print]
    | some digits =>
      have row := row_iff.mpr effect_eq
      cases (row.line line).1.symm.trans (row.eq_hlt flow)

/-- A step that prints fails if no line can be completed. -/
theorem step_of_printsIn (prints : machine.PrintsIn working) (fails : sink.FailsLines error) :
    (machine.step sink).result = .error (.output error) ∧
      ∃ line, (machine.step sink).sink = (sink.writeLine line).1 := by
  obtain ⟨⟨a, b, holds⟩, goesOn⟩ := prints
  have running := running_of_step_eq_ok goesOn
  obtain ⟨opcode, a', b', effect, holds', effect_eq, -, -, -⟩ := step_of_running goesOn
  obtain ⟨rfl, -, -⟩ := holds.unique holds'
  cases row_iff.mpr effect_eq with
  | prn names =>
    rw [step_of_unprinted running holds' effect_eq (fails _)]
    exact ⟨rfl, _, rfl⟩
  | ofTwo two => cases two
  | ofOne one => cases one

/-! ## Runs beside a run that works -/

theorem stepAt_of_silent (running : machine.status = .running) (accepting : working.Accepting)
    (reaches : machine.Reaches working n) (silent : ¬ machine.PrintsAt working n)
    (same : machine.moment sink n = ((machine.moment working n).1, sink)) :
    machine.stepAt sink n = { machine.stepAt working n with sink } := by
  rw [stepAt, same]
  apply step_of_silent
  · exact reaches.status_eq.trans running
  · exact accepting.of_reply_eq reaches.reply_eq
  · exact fun prints => silent ⟨reaches, prints⟩

/-- Before the first print both runs go through the same machines, and nothing is written. -/
theorem Reaches.of_silent (reaches : machine.Reaches working n)
    (running : machine.status = .running) (accepting : working.Accepting)
    (silent : ∀ i < n, ¬ machine.PrintsAt working i) (sink : Sink) :
    machine.Reaches sink n ∧ machine.moment sink n = ((machine.moment working n).1, sink) := by
  induction n with
  | zero => exact ⟨reaches_zero machine sink, rfl⟩
  | succ n ih =>
    obtain ⟨before, same⟩ := ih reaches.of_succ fun i lt => silent i (Nat.lt_succ_of_lt lt)
    have step := stepAt_of_silent running accepting reaches.of_succ
      (silent n (Nat.lt_succ_self n)) same
    refine ⟨before.succ ?_, ?_⟩
    · rw [step]
      exact reaches.last
    · rw [moment_succ, moment_succ, step]

theorem Reaches.traceLines_of_silent (reaches : machine.Reaches working n)
    (running : machine.status = .running) (accepting : working.Accepting)
    (silent : ∀ i < n, ¬ machine.PrintsAt working i) (sink : Sink) :
    machine.traceLines sink (n + 1) = machine.traceLines working (n + 1) := by
  refine List.map_congr_left fun i h => ?_
  have le := Nat.le_of_lt_succ (List.mem_range.mp h)
  have same := ((reaches.mono le).of_silent running accepting
    (fun j lt => silent j (Nat.lt_of_lt_of_le lt le)) sink).2
  rw [same]

/-- A run that never prints is the same with any sink. -/
theorem run_of_silent (running : machine.status = .running) (accepting : working.Accepting)
    (silent : ∀ i, ¬ machine.PrintsAt working i) (ends : machine.EndsAt working n) (sink : Sink) :
    machine.EndsAt sink n ∧ (machine.run sink).result = (machine.run working).result := by
  obtain ⟨reaches, same⟩ :=
    ends.reaches.of_silent running accepting (fun i _ => silent i) sink
  have step := stepAt_of_silent running accepting ends.reaches (silent n) same
  have ends' : machine.EndsAt sink n := ends.of_result_eq reaches (by rw [step])
  refine ⟨ends', ?_⟩
  rw [run_eq_joined ends', run_eq_joined ends, joined, joined, step]

/-- If no line can be completed, the first print ends the run. -/
theorem FirstPrintsAt.run (first : machine.FirstPrintsAt working n)
    (running : machine.status = .running) (accepting : working.Accepting)
    (fails : sink.FailsLines error) :
    machine.EndsAt sink n ∧ (machine.run sink).result = .error (.output error) ∧
      (machine.run sink).sink.retry = sink.retry := by
  obtain ⟨reaches, prints⟩ := first.prints
  obtain ⟨reaches', same⟩ := reaches.of_silent running accepting first.silent sink
  obtain ⟨failed, line, written⟩ := step_of_printsIn prints fails
  have step : machine.stepAt sink n = (machine.moment working n).1.step sink := by
    rw [stepAt, same]
  rw [← step] at failed written
  have ends : machine.EndsAt sink n := by
    refine ⟨reaches', fun goesOn => ?_⟩
    rw [failed] at goesOn
    cases goesOn
  rw [run_eq_joined ends, joined]
  dsimp only
  rw [failed, written]
  exact ⟨ends, rfl, sink.retry_writeLine line⟩

/-- If a run prints, some step is the first to print. -/
theorem exists_firstPrintsAt (prints : ∃ n, machine.PrintsAt sink n) :
    ∃ n, machine.FirstPrintsAt sink n := by
  classical
  exact ⟨Nat.find prints, Nat.find_spec prints, fun i lt => Nat.find_min prints lt⟩

end Machine

/-! ## Reports -/

namespace Command.Report

variable {working stdout : Sink} {options : Options} {program : List UInt8} {error again : IoError}
  {n : Nat}

theorem traceText_of_silent (fits : program.length ≤ Memory.capacity)
    (accepting : working.Accepting) (reaches : (loaded program working).Reaches working n)
    (silent : ∀ i < n, ¬ (loaded program working).PrintsAt working i) (tracing : Bool)
    (stdout : Sink) : traceText tracing stdout program n = traceText tracing working program n := by
  have running := loaded_running fits working
  unfold traceText
  dsimp only
  rw [Machine.machine_load_congr program _ stdout working,
    reaches.traceLines_of_silent running accepting silent stdout]

/-- What is left of a line that failed is flushed, and how that fails is what is said. -/
theorem ofOutcome_of_unwritten {path traced : String} {outcome : Outcome Unit}
    (result : outcome.result = .error (.output error))
    (retried : outcome.sink.retry error = .error again) :
    ofOutcome path traced outcome =
      { status := 1
        stdout := String.ofList outcome.sink.text
        stderr := traced ++ errorLine again.text } := by
  unfold ofOutcome unwritten Sink.flush
  rw [result]
  dsimp only
  rw [retried]
  rfl

/-- Output that works and output that does not are the same to a run that does not fail
for its output. -/
theorem ofOutcome_congr {path traced : String} {outcome other : Outcome Unit}
    (same : outcome.result = other.result) (written : unwritten other.result = none) :
    (ofOutcome path traced outcome).status = (ofOutcome path traced other).status ∧
      (ofOutcome path traced outcome).stderr = (ofOutcome path traced other).stderr := by
  unfold ofOutcome
  dsimp only
  rw [same, written]
  unfold Sink.flush
  dsimp only
  split
  · exact ⟨rfl, rfl⟩
  · exact ⟨rfl, rfl⟩

/-- A run that prints fails for its output at the first print, and is reported with what
the flush fails with. -/
theorem ofRun_of_firstPrintsAt (fits : program.length ≤ Memory.capacity)
    (accepting : working.Accepting) (fails : stdout.FailsLines error)
    (retried : stdout.retry error = .error again) (options : Options)
    (first : (loaded program working).FirstPrintsAt working n) :
    (ofRun stdout options program).status = 1 ∧
      (ofRun stdout options program).stderr =
        traceText options.trace working program n ++ errorLine again.text := by
  obtain ⟨ends, failed, retry⟩ := first.run (loaded_running fits working) accepting fails
  unfold loaded at ends failed retry
  rw [Machine.machine_load_congr program Machine.initial working stdout] at ends failed retry
  have outcome := Machine.runWith_eq_after fits Machine.initial stdout
  have result : (Machine.initial.runWith program stdout).result = .error (.output error) := by
    rw [outcome]
    exact failed
  have retried : (Machine.initial.runWith program stdout).sink.retry error = .error again := by
    rw [outcome, ← retried, ← retry]
    rfl
  have lines := traceText_of_silent fits accepting first.prints.1 first.silent options.trace stdout
  rw [ofRun_eq_ofOutcome fits options ends, lines,
    ofOutcome_of_unwritten result retried]
  exact ⟨rfl, rfl⟩

/-- A run that never prints is reported as it is with output that works. -/
theorem ofRun_of_silent (fits : program.length ≤ Memory.capacity) (accepting : working.Accepting)
    (silent : ∀ n, ¬ (loaded program working).PrintsAt working n) (options : Options)
    (stdout : Sink) :
    (ofRun stdout options program).status = (ofRun working options program).status ∧
      (ofRun stdout options program).stderr = (ofRun working options program).stderr := by
  obtain ⟨n, ends⟩ := Machine.exists_endsAt (loaded program working) working
  have running := loaded_running fits working
  obtain ⟨ends', result⟩ := Machine.run_of_silent running accepting silent ends stdout
  have lines := traceText_of_silent fits accepting ends.reaches (fun i _ => silent i)
    options.trace stdout
  have same := Machine.machine_load_congr program Machine.initial working stdout
  have written : unwritten (Machine.initial.runWith program working).result = none := by
    cases result : (Machine.initial.runWith program working).result with
    | ok _ => rfl
    | error fault => exact unwritten_of_ne_output (runWith_fault_of_accepting fits accepting result).2
  have results : (Machine.initial.runWith program stdout).result =
      (Machine.initial.runWith program working).result := by
    rw [Machine.runWith_eq_after fits, Machine.runWith_eq_after fits, ← same]
    exact result
  unfold loaded at ends'
  rw [same] at ends'
  rw [ofRun_eq_ofOutcome fits options ends, ofRun_eq_ofOutcome fits options ends', lines]
  exact ofOutcome_congr results written

/-! ## Listings -/

theorem disassemble_ne_nil (some : program ≠ []) : disassemble program program.length ≠ [] := by
  obtain ⟨item, decoded⟩ := Item.exists_decode? some
  rw [disassemble, listing, listingFrom_of_lt (List.length_pos_iff.mpr some) decoded]
  exact List.cons_ne_nil _ _

theorem writeLines_of_failsLines (fails : stdout.FailsLines error) {lines : List String}
    (some : lines ≠ []) : (writeLines stdout lines).2 = .error error := by
  obtain ⟨line, rest, rfl⟩ := List.exists_cons_of_ne_nil some
  have failed := fails line.toList
  rw [writeLines]
  split
  · rename_i after same
    rw [same] at failed
    cases failed
  · exact failed

theorem ofListing_of_failsLines (fails : stdout.FailsLines error) (some : program ≠ []) :
    (ofListing stdout program).status = 1 ∧
      (ofListing stdout program).stderr = errorLine error.text := by
  have failed := writeLines_of_failsLines fails (disassemble_ne_nil some)
  unfold ofListing
  split
  · rename_i after same
    rw [same] at failed
    cases failed
  · rename_i after other same
    rw [same] at failed
    cases failed
    exact ⟨rfl, rfl⟩

/-- Nothing is written of an empty program. -/
theorem ofListing_nil (stdout : Sink) :
    ofListing stdout [] = { status := 0, stdout := String.ofList stdout.text, stderr := "" } := by
  have none : disassemble [] ([] : List UInt8).length = [] := by
    rw [disassemble, listing, List.length_nil, listingFrom_of_ge (Nat.le_refl 0), List.map_nil]
  rw [ofListing, none]
  rfl

/-! ## Full output -/

/-- What is said of standard output on a full device. -/
def fullLine : String :=
  "ERROR: No space left on device (os error 28)\n"

theorem errorLine_noSpaceLeft : errorLine (IoError.ofErrno .noSpaceLeft).text = fullLine := rfl

section command
variable {parse : List String → Invocation} {arguments : List String}
  {read : String → Except IoError ByteArray}

theorem ofInvocation_of_image
    (image : Image.ofContent options.path (read options.path) = .ok program) (stdout : Sink) :
    ofInvocation stdout read (.execute options) =
      if options.disasm then ofListing stdout program else ofRun stdout options program := by
  rw [ofInvocation, ofOptions, image]

/-- The report, made with full output, tells of `program` what `usual` tells with output
that works, unless something had to be printed. -/
structure OnFullOutput (report usual : Report) (working : Sink) (options : Options)
    (program : List UInt8) : Prop where
  printing : options.disasm = false → (∃ n, (loaded program working).PrintsAt working n) →
    ∃ n, (loaded program working).FirstPrintsAt working n ∧ report.status = 1 ∧
      report.stderr = traceText options.trace working program n ++ fullLine
  silent : options.disasm = false → (¬ ∃ n, (loaded program working).PrintsAt working n) →
    report.status = usual.status ∧ report.stderr = usual.stderr
  listed : options.disasm = true → program ≠ [] → report.status = 1 ∧ report.stderr = fullLine
  unlisted : options.disasm = true → program = [] → report.status = 0 ∧ report.stderr = ""

/-- **Full output is reported just if something is printed.** With standard output on a
full device a run ends at its first PRN that prints; then the lines traced so far are
followed by the error of the device, without a word about the program. A run that prints
nothing is reported as it is with output that works. A listing fails unless it is empty. -/
theorem full_output_is_reported (asks : parse arguments = .execute options)
    {working full : Sink} (accepting : working.Accepting) (isFull : full.Full)
    (image : Image.ofContent options.path (read options.path) = .ok program) :
    (ofInvocation full read (parse arguments)).OnFullOutput
      (ofInvocation working read (parse arguments)) working options program := by
  have fits := Image.length_of_ofContent image
  rw [asks, ofInvocation_of_image image, ofInvocation_of_image image]
  refine ⟨?_, ?_, ?_, ?_⟩
  · intro run prints
    obtain ⟨n, first⟩ := Machine.exists_firstPrintsAt prints
    obtain ⟨status, stderr⟩ :=
      ofRun_of_firstPrintsAt fits accepting isFull.failsLines isFull.retry options first
    rw [if_neg (by simp [run]), ← errorLine_noSpaceLeft]
    exact ⟨n, first, status, stderr⟩
  · intro run silent
    rw [if_neg (by simp [run]), if_neg (by simp [run])]
    exact ofRun_of_silent fits accepting (not_exists.mp silent) options full
  · intro list some
    rw [if_pos list, ← errorLine_noSpaceLeft]
    exact ofListing_of_failsLines isFull.failsLines some
  · rintro list rfl
    rw [if_pos list, ofListing_nil]
    exact ⟨rfl, rfl⟩

/-- A program that prints a register and would print one that there is not. -/
theorem full_output_is_reported_at_first_print :
    let options : Options := { path := "p", trace := true }
    let read : String → Except IoError ByteArray :=
      fun _ => .ok "01000111\n0\n01000111\n1000\n".toByteArray
    let full := Sink.lineBuffered (.ofErrno .noSpaceLeft)
    let report := ofInvocation full read (Invocation.ofArguments options.arguments)
    report.status = 1 ∧
      report.stderr = "TRACE: 00 | 47 00 47 | 00 00 00 00 00 00 00 F4\n" ++
        "ERROR: No space left on device (os error 28)\n" := by
  intro options read full report
  have named : options.path ≠ "" := by decide
  have isFull : full.Full := ⟨Sink.failsLines_lineBuffered _, rfl⟩
  have image : Image.ofContent "p" (read "p") = .ok [0x47, 0x00, 0x47, 0x08] := by decide +kernel
  have onFull := full_output_is_reported (Invocation.ofArguments_arguments named)
    Sink.accepting_unlimited isFull image
  have prints : (loaded [0x47, 0x00, 0x47, 0x08] .unlimited).PrintsAt .unlimited 0 := by
    refine ⟨Machine.reaches_zero _ _, ⟨0, 0, ?_⟩, ?_⟩
    · exact ⟨by decide +kernel, Machine.holdsOperand_iff.mpr (by decide +kernel),
        Machine.holdsOperand_iff.mpr (by decide +kernel)⟩
    · decide +kernel
  obtain ⟨n, first, status, stderr⟩ := onFull.printing rfl ⟨0, prints⟩
  -- the first step prints, so no later one is the first to
  have atOnce : n = 0 := by
    by_contra later
    exact first.silent 0 (Nat.pos_of_ne_zero later) prints
  subst atOnce
  have traced : traceText true .unlimited [0x47, 0x00, 0x47, 0x08] 0 =
      "TRACE: 00 | 47 00 47 | 00 00 00 00 00 00 00 F4\n" := by
    decide +kernel
  exact ⟨status, stderr.trans (by rw [traced]; rfl)⟩

end command

end Command.Report

end ByteMachine
