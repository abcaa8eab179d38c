import Mathlib.Data.Nat.Find
import ByteMachine.Proofs.History
import ByteMachine.Proofs.InstructionTable

/-!
# Runs with limited output

A run whose sink takes only so many characters, beside the same run with a sink
that takes everything. As long as lines fit, both go through the same machines.
The first line that does not fit ends the run: the sink keeps the part of it that
it took, and the machine is left as the line found it.
-/

namespace ByteMachine

/-! ## Sinks that stop -/

/-- The answer fails its write call with `error`. To take nothing is a failure
too. -/
def Reply.FailsWith (reply : Reply) (error : IoError) : Prop :=
  reply = .refused error ∨ reply = .accepted 0 ∧ error = .nothingWritten

namespace Sink

/-- The sink accepts `bound` characters in all, in calls that take any part of
what is offered but never nothing, and then fails with `error`. An interrupted
call is made again, so no interruption is final. -/
structure StopsAt (sink : Sink) (bound : Nat) (error : IoError) : Prop where
  accepts : ∀ calls accepted c rest, accepted.length < bound →
    ∃ count, sink.reply calls accepted (c :: rest) = .accepted (count + 1) ∧
      accepted.length + min (count + 1) (rest.length + 1) ≤ bound
  fails : ∀ calls accepted c rest, bound ≤ accepted.length →
    (sink.reply calls accepted (c :: rest)).FailsWith error
  final : error.kind ≠ .interrupted

theorem stopsAt_limited (limit : Nat) (chunk : Nat → Nat) {failure : Option IoError}
    (final : (failure.getD .nothingWritten).kind ≠ .interrupted) :
    (limited limit chunk failure).StopsAt limit (failure.getD .nothingWritten) where
  accepts := by
    intro calls accepted c rest room
    refine ⟨min (max 1 (chunk calls)) (limit - accepted.length) - 1, ?_, ?_⟩
    · simp only [limited, if_pos room, Reply.accepted.injEq]
      omega
    · omega
  fails := by
    intro calls accepted c rest full
    simp only [limited, if_neg (Nat.not_lt.mpr full)]
    cases failure with
    | none => exact .inr ⟨rfl, rfl⟩
    | some error => exact .inl rfl
  final := final

variable {sink after : Sink} {bound granted : Nat} {error : IoError} {offered line : List Char}

theorem StopsAt.of_reply_eq (stops : sink.StopsAt bound error) (same : after.reply = sink.reply) :
    after.StopsAt bound error where
  accepts := same ▸ stops.accepts
  fails := same ▸ stops.fails
  final := stops.final

theorem length_text_push (sink : Sink) (c : Char) :
    (sink.push c).text.length = sink.text.length + 1 := by
  rw [text_push, List.length_append, List.length_singleton]

/-! ## Writing to a sink that stops -/

theorem StopsAt.writeGranted_of_fits (stops : sink.StopsAt bound error)
    (fits : sink.text.length + offered.length ≤ bound) :
    (sink.writeGranted granted offered).2 = .ok () := by
  induction offered generalizing sink granted with
  | nil => rfl
  | cons c rest ih =>
    rw [List.length_cons] at fits
    unfold writeGranted
    cases granted with
    | succ granted =>
      refine ih (stops.of_reply_eq rfl) ?_
      rw [length_text_push]
      omega
    | zero =>
      obtain ⟨count, reply, -⟩ := stops.accepts sink.calls sink.text c rest (by omega)
      simp only [reply]
      refine ih (stops.of_reply_eq rfl) ?_
      rw [length_text_push]
      dsimp only
      omega

/-- What was granted fits, and more than fits is offered: the write takes what
fits and fails. -/
theorem StopsAt.writeGranted_of_overruns (stops : sink.StopsAt bound error)
    (grant : sink.text.length + min granted offered.length ≤ bound)
    (overruns : bound < sink.text.length + offered.length) :
    (sink.writeGranted granted offered).2 = .error error ∧
      (sink.writeGranted granted offered).1.text =
        sink.text ++ offered.take (bound - sink.text.length) := by
  induction offered generalizing sink granted with
  | nil =>
    rw [List.length_nil] at grant overruns
    omega
  | cons c rest ih =>
    rw [List.length_cons] at grant overruns
    -- behind `c` there is one character less to offer, and one less fits
    have behind : ∀ (called : Sink) (granted : Nat), called.reply = sink.reply →
        called.text = sink.text → sink.text.length < bound →
        sink.text.length + min (granted + 1) (rest.length + 1) ≤ bound →
        ((called.push c).writeGranted granted rest).2 = .error error ∧
          ((called.push c).writeGranted granted rest).1.text =
            sink.text ++ (c :: rest).take (bound - sink.text.length) := by
      intro called granted reply text room grant
      have pushed : (called.push c).text.length = sink.text.length + 1 := by
        rw [length_text_push, text]
      have stops : (called.push c).StopsAt bound error := stops.of_reply_eq reply
      have grant : (called.push c).text.length + min granted rest.length ≤ bound := by omega
      obtain ⟨failed, left⟩ := ih stops grant (by omega)
      refine ⟨failed, ?_⟩
      have fits : bound - sink.text.length = bound - (called.push c).text.length + 1 := by omega
      rw [left, fits, List.take_succ_cons, text_push, text, List.append_assoc,
        List.singleton_append]
    unfold writeGranted
    cases granted with
    | succ granted => exact behind sink granted rfl rfl (by omega) grant
    | zero =>
      dsimp only
      rcases Nat.lt_or_ge sink.text.length bound with room | full
      · obtain ⟨count, reply, grant⟩ := stops.accepts sink.calls sink.text c rest room
        rw [reply]
        exact behind _ count rfl rfl room grant
      · have nothing : (c :: rest).take (bound - sink.text.length) = [] := by
          rw [Nat.sub_eq_zero_of_le full, List.take_zero]
        rw [nothing, List.append_nil]
        rcases stops.fails sink.calls sink.text c rest full with reply | ⟨reply, rfl⟩
        · rw [reply]
          exact ⟨rfl, rfl⟩
        · rw [reply]
          exact ⟨rfl, rfl⟩

theorem StopsAt.write_of_fits (stops : sink.StopsAt bound error)
    (fits : sink.text.length + offered.length ≤ bound) : (sink.write offered).2 = .ok () :=
  stops.writeGranted_of_fits fits

theorem StopsAt.write_of_overruns (stops : sink.StopsAt bound error)
    (room : sink.text.length ≤ bound) (overruns : bound < sink.text.length + offered.length) :
    (sink.write offered).2 = .error error ∧
      (sink.write offered).1.text = sink.text ++ offered.take (bound - sink.text.length) :=
  stops.writeGranted_of_overruns (by omega) overruns

theorem StopsAt.writeLine_of_fits (stops : sink.StopsAt bound error)
    (fits : sink.text.length + (line ++ ['\n']).length ≤ bound) :
    (sink.writeLine line).2 = .ok () := by
  rw [List.length_append, List.length_singleton] at fits
  have first : (sink.write line).2 = .ok () := stops.write_of_fits (by omega)
  rw [writeLine_of_ok first]
  refine (stops.of_reply_eq (sink.reply_write line)).write_of_fits ?_
  rw [text_write_of_ok first, List.length_append, List.length_singleton]
  omega

/-- The limit may lie in the line or between the line and its line feed. -/
theorem StopsAt.writeLine_of_overruns (stops : sink.StopsAt bound error)
    (room : sink.text.length ≤ bound)
    (overruns : bound < sink.text.length + (line ++ ['\n']).length) :
    (sink.writeLine line).2 = .error error ∧
      (sink.writeLine line).1.text =
        sink.text ++ (line ++ ['\n']).take (bound - sink.text.length) := by
  rw [List.length_append, List.length_singleton] at overruns
  rcases Nat.lt_or_ge bound (sink.text.length + line.length) with inside | behind
  · obtain ⟨failed, text⟩ := stops.write_of_overruns room inside
    rw [writeLine_of_error failed]
    refine ⟨rfl, ?_⟩
    rw [text, List.take_append_of_le_length (by omega)]
  · have first : (sink.write line).2 = .ok () := stops.write_of_fits behind
    have written := text_write_of_ok first
    have length : (sink.write line).1.text.length = sink.text.length + line.length := by
      rw [written, List.length_append]
    have after := stops.of_reply_eq (sink.reply_write line)
    have ended : bound < (sink.write line).1.text.length + ['\n'].length := by
      rw [List.length_singleton]
      omega
    obtain ⟨failed, text⟩ := after.write_of_overruns (by omega) ended
    rw [writeLine_of_ok first]
    refine ⟨failed, ?_⟩
    -- nothing is left for the line feed
    have used : bound - (sink.write line).1.text.length = 0 := by omega
    have whole : bound - sink.text.length = line.length := by omega
    rw [text, used, whole, written, List.take_zero, List.append_nil, List.take_left]

end Sink

namespace Effect

variable {effect : Effect} {sink : Sink} {bound : Nat} {error : IoError}

theorem print_of_fits (stops : sink.StopsAt bound error)
    (fits : sink.text.length + effect.printed.length ≤ bound) :
    (effect.print sink).2 = .ok () := by
  unfold print
  unfold printed at fits
  cases line : effect.line with
  | none => rfl
  | some line =>
    rw [line] at fits
    exact stops.writeLine_of_fits fits

theorem print_of_overruns (stops : sink.StopsAt bound error) (room : sink.text.length ≤ bound)
    (overruns : bound < sink.text.length + effect.printed.length) :
    (effect.print sink).2 = .error error ∧
      (effect.print sink).1.text =
        sink.text ++ effect.printed.take (bound - sink.text.length) := by
  unfold print
  unfold printed at overruns ⊢
  cases line : effect.line with
  | none =>
    rw [line, List.length_nil] at overruns
    omega
  | some line =>
    rw [line] at overruns
    exact stops.writeLine_of_overruns room overruns

end Effect

/-! ## Steps side by side -/

namespace Machine

variable {machine : Machine} {free sink : Sink} {bound limit n : Nat} {error : IoError}

/-- Only PRN prints. -/
theorem holds_prn_of_printed {opcode : Opcode} {a b : UInt8} {effect : Effect}
    (holds : machine.Holds opcode a b) (effect_eq : opcode.effect a b machine.store = .ok effect)
    (prints : effect.printed ≠ []) : machine.Holds .prn a b := by
  unfold Effect.printed at prints
  cases line : effect.line with
  | none =>
    rw [line] at prints
    exact absurd rfl prints
  | some line =>
    obtain ⟨rfl, -⟩ := (row_iff.mpr effect_eq).line line
    exact holds

/-- What a step makes of a machine and prints, with a sink that takes everything and
with one that stops at `bound`: the same if that fits, and otherwise the step is a
PRN, and fails. -/
structure StepBeside (machine : Machine) (free sink : Sink) (bound : Nat) (error : IoError)
    (change : Change) : Prop where
  free : change.IsMadeBy (machine.step free) free
  fits : sink.text.length + change.printed.length ≤ bound →
    change.IsMadeBy (machine.step sink) sink
  overruns : bound < sink.text.length + change.printed.length →
    (∃ a b, machine.Holds .prn a b) ∧
      (machine.step sink).machine = { machine with status := .faulted } ∧
      (machine.step sink).result = .error (.output error) ∧
      (machine.step sink).sink.text =
        sink.text ++ change.printed.take (bound - sink.text.length)

theorem exists_stepBeside (running : machine.status = .running) (accepting : free.Accepting)
    (stops : sink.StopsAt bound error) (room : sink.text.length ≤ bound) :
    ∃ change, StepBeside machine free sink bound error change := by
  cases fetched : machine.fetch with
  | error fault =>
    have made := Prescribed.isMadeBy_of_fetch_error running fetched
    exact ⟨_, made free, fun _ => made sink, fun long => absurd long (Nat.not_lt.mpr room)⟩
  | ok _ =>
    obtain ⟨opcode, a, b, holds⟩ := holds_of_fetch_eq_ok fetched
    cases answer : opcode.effect a b machine.store with
    | error fault =>
      have made := Prescribed.isMadeBy_of_refused running holds answer
      exact ⟨_, made free, fun _ => made sink, fun long => absurd long (Nat.not_lt.mpr room)⟩
    | ok effect =>
      have printed : (Change.ofEffect machine opcode effect).printed = effect.printed := by
        unfold Change.ofEffect
        cases effect.flow <;> rfl
      refine ⟨Change.ofEffect machine opcode effect, ?_, ?_, ?_⟩
      · exact Prescribed.isMadeBy_of_printed running holds answer
          (Effect.print_of_accepting accepting effect)
      · intro fits
        rw [printed] at fits
        exact Prescribed.isMadeBy_of_printed running holds answer
          (Effect.print_of_fits stops fits)
      · intro overruns
        rw [printed] at overruns ⊢
        obtain ⟨failed, text⟩ := Effect.print_of_overruns stops room overruns
        have prints : effect.printed ≠ [] := by
          intro none
          rw [none, List.length_nil] at overruns
          omega
        rw [step_of_unprinted running holds answer failed]
        exact ⟨⟨a, b, holds_prn_of_printed holds answer prints⟩, rfl, rfl, text⟩

/-! ## Runs side by side -/

/-- Before step number `n`, both runs are at the same machine and have printed
`printed`. -/
structure Abreast (machine : Machine) (free sink : Sink) (n : Nat) (printed : List Char) :
    Prop where
  reaches : machine.Reaches sink n
  machines : (machine.moment sink n).1 = (machine.moment free n).1
  freeText : (machine.moment free n).2.text = free.text ++ printed
  text : (machine.moment sink n).2.text = sink.text ++ printed

variable {printed : List Char}

theorem Abreast.stepAt_eq (abreast : machine.Abreast free sink n printed) :
    machine.stepAt sink n = (machine.moment free n).1.step (machine.moment sink n).2 := by
  unfold stepAt
  rw [abreast.machines]

/-- The next steps of two runs that are abreast. -/
theorem Abreast.exists_stepBeside (abreast : machine.Abreast free sink n printed)
    (reaches : machine.Reaches free n) (running : machine.status = .running)
    (accepting : free.Accepting) (stops : sink.StopsAt bound error)
    (room : sink.text.length + printed.length ≤ bound) :
    ∃ change, StepBeside (machine.moment free n).1 (machine.moment free n).2
      (machine.moment sink n).2 bound error change := by
  apply Machine.exists_stepBeside
  · exact reaches.status_eq.trans running
  · exact accepting.of_reply_eq reaches.reply_eq
  · exact stops.of_reply_eq abreast.reaches.reply_eq
  · rw [abreast.text, List.length_append]
    exact room

/-- If the next line fits too, the runs stay abreast. -/
theorem Abreast.stepAt_of_fits (abreast : machine.Abreast free sink n printed)
    (reaches : machine.Reaches free n) (running : machine.status = .running)
    (accepting : free.Accepting) (stops : sink.StopsAt (sink.text.length + limit) error)
    (fits : (machine.stepAt free n).sink.text.length ≤ free.text.length + limit) :
    (machine.stepAt sink n).machine = (machine.stepAt free n).machine ∧
      (machine.stepAt sink n).result = (machine.stepAt free n).result ∧
      ∃ printed, (machine.stepAt free n).sink.text = free.text ++ printed ∧
        (machine.stepAt sink n).sink.text = sink.text ++ printed := by
  have before := (reaches.text_stepAt running).length_le
  rw [abreast.freeText, List.length_append] at before
  obtain ⟨change, beside⟩ :=
    abreast.exists_stepBeside reaches running accepting stops (by omega)
  have made := beside.free
  have text := made.text
  rw [abreast.freeText, List.append_assoc] at text
  have length := congrArg List.length text
  rw [List.length_append, List.length_append] at length
  have same : change.IsMadeBy (machine.stepAt sink n) (machine.moment sink n).2 := by
    rw [abreast.stepAt_eq]
    apply beside.fits
    rw [abreast.text, List.length_append]
    unfold stepAt at fits
    omega
  refine ⟨same.machine.trans made.machine.symm, same.result.trans made.result.symm,
    printed ++ change.printed, text, ?_⟩
  rw [same.text, abreast.text, List.append_assoc]

/-- As long as everything fits, both runs go through the same machines. -/
theorem exists_abreast (running : machine.status = .running) (accepting : free.Accepting)
    (stops : sink.StopsAt (sink.text.length + limit) error) (reaches : machine.Reaches free n)
    (fits : (machine.moment free n).2.text.length ≤ free.text.length + limit) :
    ∃ printed, machine.Abreast free sink n printed := by
  induction n with
  | zero =>
    exact ⟨[], reaches_zero machine sink, rfl, (List.append_nil _).symm, (List.append_nil _).symm⟩
  | succ n ih =>
    have grows := (reaches.of_succ.text_stepAt running).length_le
    obtain ⟨printed, abreast⟩ := ih reaches.of_succ (Nat.le_trans grows fits)
    obtain ⟨machines, results, printed, freeText, text⟩ :=
      abreast.stepAt_of_fits reaches.of_succ running accepting stops fits
    have goesOn := results.trans reaches.last
    exact ⟨printed, abreast.reaches.succ goesOn, machines, freeText, text⟩

/-- A run that prints no more than fits is the same with the limited sink. -/
theorem run_of_fits (running : machine.status = .running) (accepting : free.Accepting)
    (stops : sink.StopsAt (sink.text.length + limit) error) (ends : machine.EndsAt free n)
    (fits : (machine.stepAt free n).sink.text.length ≤ free.text.length + limit) :
    (machine.run sink).result = (machine.run free).result ∧
      (machine.run sink).machine = (machine.run free).machine ∧
      ∃ printed, (machine.stepAt free n).sink.text = free.text ++ printed ∧
        (machine.run sink).sink.text = sink.text ++ printed := by
  have grows := (ends.reaches.text_stepAt running).length_le
  obtain ⟨_, abreast⟩ :=
    exists_abreast running accepting stops ends.reaches (Nat.le_trans grows fits)
  obtain ⟨machines, results, printed, freeText, text⟩ :=
    abreast.stepAt_of_fits ends.reaches running accepting stops fits
  rw [run_eq_joined ends, run_eq_joined (ends.of_result_eq abreast.reaches results)]
  refine ⟨?_, machines, printed, freeText, text⟩
  simp only [joined, results]

/-! ## The first line that does not fit -/

/-- Step number `n` of a run is a PRN whose line ends behind the first `limit`
characters that the run prints. -/
structure OverrunsAt (machine : Machine) (sink : Sink) (limit n : Nat) : Prop where
  prints : ∃ a b, (machine.moment sink n).1.Holds .prn a b
  exceeds : sink.text.length + limit < (machine.stepAt sink n).sink.text.length

/-- The first step that prints too much ends the run with the limited sink. -/
theorem run_of_first_overrun (running : machine.status = .running) (accepting : free.Accepting)
    (stops : sink.StopsAt (sink.text.length + limit) error) (reaches : machine.Reaches free n)
    (exceeds : free.text.length + limit < (machine.stepAt free n).sink.text.length)
    (first : ∀ i < n, ¬ free.text.length + limit < (machine.stepAt free i).sink.text.length) :
    machine.OverrunsAt free limit n ∧
      (machine.run sink).machine = { (machine.moment free n).1 with status := .faulted } ∧
      (machine.run sink).result = .error (.output error) ∧
      ∃ printed, (machine.stepAt free n).sink.text = free.text ++ printed ∧
        (machine.run sink).sink.text = sink.text ++ printed.take limit := by
  have fits : (machine.moment free n).2.text.length ≤ free.text.length + limit := by
    cases n with
    | zero => exact Nat.le_add_right _ _
    | succ n => exact Nat.le_of_not_lt (first n (Nat.lt_succ_self n))
  obtain ⟨printed, abreast⟩ := exists_abreast running accepting stops reaches fits
  rw [abreast.freeText, List.length_append] at fits
  have room : printed.length ≤ limit := by omega
  obtain ⟨change, beside⟩ :=
    abreast.exists_stepBeside reaches running accepting stops (by omega)
  have text := beside.free.text
  rw [abreast.freeText, List.append_assoc] at text
  have long : limit < printed.length + change.printed.length := by
    unfold stepAt at exceeds
    rw [text, List.length_append, List.length_append] at exceeds
    omega
  obtain ⟨prints, failed, result, left⟩ := beside.overruns (by
    rw [abreast.text, List.length_append]
    omega)
  rw [← abreast.stepAt_eq] at failed result left
  have ends : machine.EndsAt sink n := by
    refine ⟨abreast.reaches, ?_⟩
    rw [result]
    nofun
  rw [run_eq_joined ends]
  refine ⟨⟨prints, exceeds⟩, failed, ?_, printed ++ change.printed, text, ?_⟩
  · simp only [joined, result, Except.map]
  · have behind : sink.text.length + limit - (sink.text ++ printed).length =
        limit - printed.length := by
      rw [List.length_append]
      omega
    show (machine.stepAt sink n).sink.text = _
    rw [left, abreast.text, behind, List.append_assoc, List.take_append,
      List.take_of_length_le room]

/-- **Limited output only cuts a run short.** Beside the run of the same machine with
a sink that takes everything: if what that run prints fits, the runs agree; if not,
the sink takes as much of it as fits, the run fails with the error of the sink, and
the machine is left as it was before the first line that does not fit. -/
theorem run_limited (running : machine.status = .running) (accepting : free.Accepting)
    (stops : sink.StopsAt (sink.text.length + limit) error) :
    ∃ printed, (machine.run free).sink.text = free.text ++ printed ∧
      (printed.length ≤ limit →
        (machine.run sink).result = (machine.run free).result ∧
        (machine.run sink).machine = (machine.run free).machine ∧
        (machine.run sink).sink.text = sink.text ++ printed) ∧
      (limit < printed.length →
        (machine.run sink).result = .error (.output error) ∧
        (machine.run sink).sink.text = sink.text ++ printed.take limit ∧
        ∃ n, machine.Reaches free n ∧ machine.OverrunsAt free limit n ∧
          (∀ i < n, ¬ machine.OverrunsAt free limit i) ∧
          (machine.run sink).machine = { (machine.moment free n).1 with status := .faulted }) := by
  obtain ⟨last, ends⟩ := exists_endsAt machine free
  have start := (ends.reaches.text_mono running (Nat.zero_le last)).trans
    (ends.reaches.text_stepAt running)
  obtain ⟨printed, text⟩ := start
  change free.text ++ printed = _ at text
  have length := congrArg List.length text
  rw [List.length_append] at length
  refine ⟨printed, ?_, ?_, ?_⟩
  · rw [run_eq_joined ends]
    exact text.symm
  · intro fits
    obtain ⟨results, machines, shared, freeText, same⟩ :=
      run_of_fits running accepting stops ends (by omega)
    obtain rfl : printed = shared := List.append_cancel_left (text.trans freeText)
    exact ⟨results, machines, same⟩
  · intro long
    have atLast : free.text.length + limit < (machine.stepAt free last).sink.text.length := by
      omega
    have exceeded : ∃ n, free.text.length + limit < (machine.stepAt free n).sink.text.length :=
      ⟨last, atLast⟩
    have within := Nat.find_min' exceeded atLast
    have exceeds := Nat.find_spec exceeded
    have first := fun i (before : i < Nat.find exceeded) => Nat.find_min exceeded before
    generalize Nat.find exceeded = n at within exceeds first
    obtain ⟨overruns, left, result, part, partText, taken⟩ :=
      run_of_first_overrun running accepting stops (ends.reaches.mono within) exceeds first
    refine ⟨result, ?_, n, ends.reaches.mono within, overruns, ?_, left⟩
    · have grows := ends.reaches.text_stepAt_mono running within
      rw [partText, ← text, List.prefix_append_right_inj] at grows
      obtain ⟨rest, rfl⟩ := grows
      rw [partText, List.length_append] at exceeds
      rw [taken, List.take_append_of_le_length (by omega)]
    · intro i before earlier
      exact first i before earlier.exceeds

/-- A limit of two characters cuts off the third digit of a number. -/
theorem run_limited_in_number :
    let machine := (initial.load [0x82, 0x00, 0x7B, 0x47, 0x00, 0x01] .unlimited).machine
    let closed : IoError := ⟨.brokenPipe, "reader went away"⟩
    let sink := Sink.limited 2 (fun _ => 1) (some closed)
    (machine.run sink).result = .error (.output closed) ∧
      (machine.run sink).sink.text = ['1', '2'] := by
  intro machine closed sink
  have running : machine.status = .running := rfl
  have stops : sink.StopsAt (sink.text.length + 2) closed :=
    Sink.stopsAt_limited 2 (fun _ => 1) nofun
  obtain ⟨printed, text, -, exceeding⟩ := run_limited running Sink.accepting_unlimited stops
  have whole : (machine.run .unlimited).sink.text = ['1', '2', '3', '\n'] := by decide +kernel
  obtain rfl := List.append_cancel_left (text.symm.trans whole)
  obtain ⟨result, taken, -⟩ := exceeding (by decide)
  exact ⟨result, taken⟩

end Machine

end ByteMachine
