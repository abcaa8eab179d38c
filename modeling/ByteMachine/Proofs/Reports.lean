import ByteMachine.Command.Report
import ByteMachine.Proofs.Capacity
import ByteMachine.Proofs.Tracing

/-!
# Reports of the command

What the command prints and how it exits, for all arguments that name a program, all
contents of the file and every standard output that takes everything (`command_reports`).
The file is read first; the program in it is listed or run, and only a run can fail. How
arguments are parsed is left open: of a parser it only matters with what it answers.
-/

namespace ByteMachine

/-! ## Faults of a run -/

namespace Machine

variable {machine : Machine} {sink : Sink} {fault : Fault}

theorem step_result_ne_output (running : machine.status = .running) (accepting : sink.Accepting)
    (error : IoError) : (machine.step sink).result ≠ .error (.output error) := by
  intro failed
  have case := step_case running sink
  generalize machine.step sink = outcome at case failed
  cases case with
  | unfetched missing =>
    cases failed
    rcases fetch_eq_error missing with ⟨_, same⟩ | ⟨_, same⟩
    all_goals cases same
  | refused _ refusal =>
    cases failed
    rcases (row_iff.mpr refusal).refusal with ⟨_, same⟩ | same
    all_goals cases same
  | unprinted _ _ printing =>
    rw [Effect.print_of_accepting accepting] at printing
    cases printing
  | next | halt => cases failed

/-- If all is printed, the program is at fault: one of its instructions. -/
theorem run_fault_of_accepting (running : machine.status = .running)
    (accepting : sink.Accepting) (failed : (machine.run sink).result = .error fault) :
    fault.OfInstruction ∧ ∀ error, fault ≠ .output error := by
  obtain ⟨n, reaches, failing, -, -⟩ := exists_failing_step failed
  have started := reaches.status_eq.trans running
  have accepted := accepting.of_reply_eq reaches.reply_eq
  refine ⟨ofInstruction_of_step_error started failing, ?_⟩
  rintro error rfl
  exact step_result_ne_output started accepted error failing

end Machine

theorem Image.length_of_ofContent {path : String} {content : Except IoError ByteArray}
    {program : List UInt8} (loaded : ofContent path content = .ok program) :
    program.length ≤ Memory.capacity := by
  unfold ofContent at loaded
  split at loaded
  · split at loaded
    · exact (ofText_eq_ok_iff.mp loaded).2
    · cases loaded
  · cases loaded

namespace Command

/-! ## Arguments -/

/-- The long way to ask for `options`. -/
def Options.arguments (options : Options) : List String :=
  (if options.trace then ["--trace"] else []) ++ (if options.disasm then ["--disasm"] else []) ++
    ["--", options.path]

/-- Behind the dashes the argument is a path, whatever it looks like. -/
theorem Given.addArguments_path {given : Given} (none : given.path = none) {path : String}
    (named : path ≠ "") :
    given.addArguments ["--", path] = .ok { given with path := some path } := by
  have some : path.isEmpty = false := by
    simpa using named
  unfold addArguments
  rw [if_pos rfl, List.foldlM_cons, addPath, none, some]
  rfl

/-- Every choice of flags and every path can be asked for. -/
theorem Invocation.ofArguments_arguments {options : Options} (named : options.path ≠ "") :
    Invocation.ofArguments options.arguments = .execute options := by
  obtain ⟨path, trace, disasm⟩ := options
  have flags : Given.addArguments {} (Options.arguments ⟨path, trace, disasm⟩) =
      Given.addArguments { trace, disasm } ["--", path] := by
    cases trace <;> cases disasm <;> rfl
  unfold Invocation.ofArguments
  rw [flags, Given.addArguments_path rfl named]

example : Invocation.ofArguments ["--trace", "--", "-d"] = .execute ⟨"-d", true, false⟩ := by
  decide +kernel

namespace Report

/-! ## Lines on standard output -/

theorem toList_unlines (lines : List String) :
    (unlines lines).toList = lines.flatMap fun line => line.toList ++ ['\n'] := by
  rw [unlines, String.toList_join, List.flatMap_map]
  simp

theorem writeLines_cons {stdout : Sink} {line : String}
    (written : (stdout.writeLine line.toList).2 = .ok ()) (rest : List String) :
    writeLines stdout (line :: rest) = writeLines (stdout.writeLine line.toList).1 rest := by
  rw [writeLines]
  split
  · rename_i after same
    rw [same]
  · rename_i other
    exact (other _ (Prod.ext rfl written)).elim

/-- All lines are written, each ended by a line feed. -/
theorem writeLines_of_accepting {stdout : Sink} (accepting : stdout.Accepting)
    (lines : List String) :
    (writeLines stdout lines).2 = .ok () ∧
      (writeLines stdout lines).1.text = stdout.text ++ (unlines lines).toList := by
  induction lines generalizing stdout with
  | nil => exact ⟨rfl, (List.append_nil _).symm⟩
  | cons line lines ih =>
    have written := accepting.writeLine line.toList
    obtain ⟨result, text⟩ := ih (accepting.of_reply_eq (stdout.reply_writeLine line.toList))
    rw [writeLines_cons written]
    refine ⟨result, ?_⟩
    rw [text, Sink.text_writeLine_of_ok written, toList_unlines, toList_unlines, List.flatMap_cons,
      List.append_assoc]

variable {stdout : Sink} {options : Options} {program : List UInt8}

theorem ofListing_of_accepting (accepting : stdout.Accepting) (blank : stdout.text = [])
    (program : List UInt8) :
    ofListing stdout program =
      { status := 0, stdout := unlines (disassemble program program.length), stderr := "" } := by
  obtain ⟨result, text⟩ := writeLines_of_accepting accepting (disassemble program program.length)
  rw [blank, List.nil_append] at text
  unfold ofListing
  split
  · rename_i after same
    rw [same] at text
    rw [text, String.ofList_toList]
  · rename_i after error same
    rw [same] at result
    cases result

/-! ## Reports on runs -/

/-- The machine that runs `program`. -/
abbrev loaded (program : List UInt8) (stdout : Sink) : Machine :=
  (Machine.initial.load program stdout).machine

theorem loaded_running (fits : program.length ≤ Memory.capacity) (stdout : Sink) :
    (loaded program stdout).status = .running :=
  (Machine.keeps_load fits Machine.initial stdout).status

/-- What is traced of a run of `program` whose last step is number `n`, counted from
zero: if the run is traced, a line for each step that is tried. -/
def traceText (tracing : Bool) (stdout : Sink) (program : List UInt8) (n : Nat) : String :=
  if tracing then
    let loaded := (Machine.initial.load program stdout).machine
    unlines ((loaded.traceLines stdout (n + 1)).map TraceLine.text)
  else ""

/-- The report tells of a run of `program` whose last step is number `n`. The options
only decide whether trace lines come before the rest of standard error. -/
structure OnRun (report : Report) (stdout : Sink) (options : Options) (program : List UInt8)
    (n : Nat) : Prop where
  ends : (Machine.initial.load program stdout).machine.EndsAt stdout n
  printed : report.stdout = String.ofList (Machine.initial.runWith program stdout).sink.text
  ok : (Machine.initial.runWith program stdout).result = .ok () →
    report.status = 0 ∧ report.stderr = traceText options.trace stdout program n
  failed : ∀ fault, (Machine.initial.runWith program stdout).result = .error fault →
    fault.OfInstruction ∧ report.status = 1 ∧
      report.stderr = traceText options.trace stdout program n ++
        ("ERROR: executing " ++ options.path ++ ": " ++ fault.message ++ "\n")

/-- A run with tracing comes to the same as one without, and leaves its lines. -/
theorem runWith_tracing (fits : program.length ≤ Memory.capacity) (tracing : Bool) {n : Nat}
    (ends : (Machine.initial.load program stdout).machine.EndsAt stdout n) :
    (({ tracing } : Machine).runWith program stdout).sink =
        (Machine.initial.runWith program stdout).sink ∧
      (({ tracing } : Machine).runWith program stdout).result =
        (Machine.initial.runWith program stdout).result ∧
      unlines ((({ tracing } : Machine).runWith program stdout).trace.map TraceLine.text) =
        traceText tracing stdout program n := by
  have alike : (Machine.initial.load program stdout).machine.Alike
      (({ tracing } : Machine).load program stdout).machine :=
    Machine.alike_load program Machine.initial tracing stdout
  have keeps := Machine.keeps_load fits { tracing } stdout
  have running := loaded_running fits stdout
  have runs := alike.run running stdout
  rw [Machine.runWith_eq_after fits, Machine.runWith_eq_after fits]
  refine ⟨runs.sink, runs.result, ?_⟩
  have lines := Machine.trace_run keeps.status (alike.endsAt running ends)
  rw [keeps.tracing, alike.traceLines_eq running ends.reaches] at lines
  unfold Outcome.after traceText
  rw [Machine.trace_load, List.nil_append, lines]
  cases tracing with
  | true => rfl
  | false => rfl

/-- A report looks at what a run without tracing comes to, and at the lines. -/
theorem ofRun_eq_ofOutcome (fits : program.length ≤ Memory.capacity) (options : Options) {n : Nat}
    (ends : (Machine.initial.load program stdout).machine.EndsAt stdout n) :
    ofRun stdout options program =
      ofOutcome options.path (traceText options.trace stdout program n)
        (Machine.initial.runWith program stdout) := by
  obtain ⟨sink, result, lines⟩ := runWith_tracing fits options.trace ends
  unfold ofRun ofOutcome
  dsimp only
  rw [sink, result, lines]

/-- If all is printed, a run can only fail by the program. -/
theorem runWith_fault_of_accepting (fits : program.length ≤ Memory.capacity)
    (accepting : stdout.Accepting) {fault : Fault}
    (failed : (Machine.initial.runWith program stdout).result = .error fault) :
    fault.OfInstruction ∧ ∀ error, fault ≠ .output error := by
  rw [Machine.runWith_eq_after fits] at failed
  exact Machine.run_fault_of_accepting (loaded_running fits stdout) accepting failed

section outcome
variable {path traced : String} {outcome : Outcome Unit} {fault : Fault}

theorem unwritten_of_ne_output (own : ∀ error, fault ≠ .output error) :
    unwritten (.error fault) = none := by
  cases fault with
  | output error => exact absurd rfl (own error)
  | _ => rfl

theorem ofOutcome_of_ok (result : outcome.result = .ok ()) :
    ofOutcome path traced outcome =
      { status := 0, stdout := String.ofList outcome.sink.text, stderr := traced } := by
  unfold ofOutcome
  rw [result]
  rfl

/-- If the program is at fault, the flush finds nothing that could fail. -/
theorem ofOutcome_of_fault (result : outcome.result = .error fault)
    (own : ∀ error, fault ≠ .output error) :
    ofOutcome path traced outcome =
      { status := 1
        stdout := String.ofList outcome.sink.text
        stderr := traced ++ errorLine ("executing " ++ path ++ ": " ++ fault.message) } := by
  unfold ofOutcome
  rw [result, unwritten_of_ne_output own]
  rfl

end outcome

theorem exists_onRun (accepting : stdout.Accepting) (options : Options)
    (fits : program.length ≤ Memory.capacity) :
    ∃ n, (ofRun stdout options program).OnRun stdout options program n := by
  obtain ⟨n, ends⟩ := Machine.exists_endsAt (Machine.initial.load program stdout).machine stdout
  refine ⟨n, ?_⟩
  rw [ofRun_eq_ofOutcome fits options ends]
  cases result : (Machine.initial.runWith program stdout).result with
  | ok _ =>
    rw [ofOutcome_of_ok result]
    refine ⟨ends, rfl, fun _ => ⟨rfl, rfl⟩, ?_⟩
    intro fault failed
    cases result.symm.trans failed
  | error fault =>
    obtain ⟨ofInstruction, own⟩ := runWith_fault_of_accepting fits accepting result
    rw [ofOutcome_of_fault result own]
    refine ⟨ends, rfl, ?_, ?_⟩
    · intro ok
      cases result.symm.trans ok
    · intro other failed
      cases result.symm.trans failed
      have start : "ERROR: executing " = "ERROR: " ++ "executing " := by decide
      refine ⟨ofInstruction, rfl, ?_⟩
      dsimp only
      rw [start]
      simp only [errorLine, String.append_assoc]

/-! ## Reports on files -/

/-- The report tells of the file at the path of `options`, whose reading gave `content`.
Just one of the three parts applies. -/
structure OnFile (report : Report) (stdout : Sink) (options : Options)
    (content : Except IoError ByteArray) : Prop where
  unloaded : ∀ error, Image.ofContent options.path content = .error error →
    report = { status := 2, stdout := "", stderr := "ERROR: " ++ error.message ++ "\n" }
  listed : ∀ program, Image.ofContent options.path content = .ok program →
    options.disasm = true →
    report =
      { status := 0
        stdout := String.join ((disassemble program program.length).map (· ++ "\n"))
        stderr := "" }
  ran : ∀ program, Image.ofContent options.path content = .ok program →
    options.disasm = false → ∃ n, report.OnRun stdout options program n

/-- **Reports.** However arguments are parsed, whatever arguments ask for a program, whatever
reading the file gives, and wherever the output goes, if only all of it is taken: a file that
gives no program is an error by itself; a program that is to be listed is listed, also if it
could not be run; and of a program that is run, all that it prints is printed, also before a
fault, which is the fault of an instruction. Tracing adds one line for each step that is
tried, in front of the rest of standard error. -/
theorem command_reports {parse : List String → Invocation} {arguments : List String}
    (asks : parse arguments = .execute options) (accepting : stdout.Accepting)
    (blank : stdout.text = []) (read : String → Except IoError ByteArray) :
    (ofInvocation stdout read (parse arguments)).OnFile stdout options (read options.path) := by
  rw [asks]
  unfold ofInvocation ofOptions
  dsimp only
  refine ⟨?_, ?_, ?_⟩
  · intro error unloaded
    rw [unloaded]
    rfl
  · intro program loaded disasm
    rw [loaded, disasm]
    exact ofListing_of_accepting accepting blank program
  · intro program loaded disasm
    rw [loaded, disasm]
    exact exists_onRun accepting options (Image.length_of_ofContent loaded)

/-- A program that prints and then comes to a byte that is no instruction. -/
theorem command_reports_fault :
    let options : Options := { path := "p", trace := true }
    let read : String → Except IoError ByteArray :=
      fun _ => .ok "01000111\n00000000\n11111111\n".toByteArray
    let report := ofInvocation .unlimited read (Invocation.ofArguments options.arguments)
    report.status = 1 ∧ report.stdout = "0\n" := by
  intro options read report
  have named : options.path ≠ "" := by decide
  have asks := Invocation.ofArguments_arguments named
  have onFile := command_reports asks Sink.accepting_unlimited rfl read
  have loaded : Image.ofContent "p" (read "p") = .ok [0x47, 0x00, 0xFF] := by decide +kernel
  obtain ⟨n, onRun⟩ := onFile.ran _ loaded rfl
  have printed : (Machine.initial.runWith [0x47, 0x00, 0xFF] .unlimited).sink.text =
      ['0', '\n'] := by
    decide +kernel
  have failed : (Machine.initial.runWith [0x47, 0x00, 0xFF] .unlimited).result =
      .error (.unknownInstruction 2 0xFF) := by
    decide +kernel
  refine ⟨(onRun.failed _ failed).2.1, ?_⟩
  exact onRun.printed.trans (congrArg String.ofList printed)

end Report

end Command

end ByteMachine
