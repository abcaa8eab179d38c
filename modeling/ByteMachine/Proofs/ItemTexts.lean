import ByteMachine.Proofs.Bounds
import ByteMachine.Proofs.Columns
import ByteMachine.Proofs.ListedRun

/-!
# Texts of items and what is fetched

Fetching looks for a handler and reads cell after cell; a listing decodes opcodes and
takes all operands at once. The two are made apart from each other, and agree at every
address: an instruction is shown just where a handler is called, it is the same
instruction with the same operands, and it is as long as the step moves
(`step_follows_text`). Texts are compared as texts, by what a reader finds in them.
-/

namespace ByteMachine

open Numeral

/-! ## Numerals in a text -/

/-- The decimal numerals in a text, each as far as its digits go. -/
def numerals (cs : List Char) : List Nat :=
  ((cs.splitOnP (!·.isDigit)).filter (!·.isEmpty)).map (Nat.ofDigitChars 10 · 0)

theorem decimalDigits_digits (n : Nat) : ∀ c ∈ decimalDigits n, (!c.isDigit) = false := by
  intro c h
  rw [isDigit_of_mem_decimalDigits h]
  rfl

theorem decimalDigits_ne_nil (n : Nat) : decimalDigits n ≠ [] := by
  intro empty
  have read := ofDigitChars_decimalDigits n
  rw [empty] at read
  subst read
  cases empty

theorem numerals_cons_other {c : Char} (other : c.isDigit = false) (cs : List Char) :
    numerals (c :: cs) = numerals cs := by
  unfold numerals
  rw [List.splitOnP_cons_eq_if_modifyHead, if_pos (by rw [other]; rfl),
    List.filter_cons_of_neg (by simp)]

theorem numerals_append_others {front : List Char} (others : ∀ c ∈ front, c.isDigit = false)
    (cs : List Char) : numerals (front ++ cs) = numerals cs := by
  induction front with
  | nil => rfl
  | cons c front ih =>
    rw [List.cons_append, numerals_cons_other (others c List.mem_cons_self),
      ih fun c h => others c (List.mem_cons_of_mem _ h)]

theorem numerals_decimalDigits (n : Nat) : numerals (decimalDigits n) = [n] := by
  unfold numerals
  rw [List.splitOnP_eq_singleton (decimalDigits_digits n),
    List.filter_cons_of_pos (by simp [decimalDigits_ne_nil]), List.filter_nil, List.map_singleton,
    ofDigitChars_decimalDigits]

/-- A numeral ends at whatever is no digit. -/
theorem numerals_decimalDigits_append (n : Nat) {c : Char} (other : c.isDigit = false)
    (cs : List Char) : numerals (decimalDigits n ++ c :: cs) = n :: numerals cs := by
  unfold numerals
  rw [List.splitOnP_append_cons_of_forall_mem (decimalDigits_digits n) c (by rw [other]; rfl),
    List.filter_cons_of_pos (by simp [decimalDigits_ne_nil]), List.map_cons,
    ofDigitChars_decimalDigits]

/-! ## What the text of an item shows -/

/-- A word with numbers behind it. -/
structure Item.Phrase where
  word : String
  numbers : List Nat
deriving DecidableEq, Repr

/-- The phrase that a text shows: its word ends at the first blank. -/
def Item.Phrase.ofText (text : String) : Item.Phrase where
  word := String.ofList (text.toList.takeWhile (· != ' '))
  numbers := numerals text.toList

namespace Item

/-- Neither a blank nor a digit is part of a mnemonic. -/
theorem plain_mnemonic (opcode : Opcode) :
    ∀ c ∈ opcode.mnemonic.toList, (c != ' ') = true ∧ c.isDigit = false := by
  have table : opcode.mnemonic.toList.all (fun c => c != ' ' && !c.isDigit) = true := by
    cases opcode <;> decide
  intro c h
  simpa using List.all_eq_true.mp table c h

/-- What is shown instead of an instruction is no mnemonic. -/
theorem mnemonic_ne_marks (opcode : Opcode) : opcode.mnemonic ≠ "DB" ∧ opcode.mnemonic ≠ "??" := by
  cases opcode <;> decide

theorem takeWhile_mnemonic (opcode : Opcode) {cs : List Char}
    (ends : cs.takeWhile (· != ' ') = []) :
    String.ofList ((opcode.mnemonic.toList ++ cs).takeWhile (· != ' ')) = opcode.mnemonic := by
  rw [List.takeWhile_append_of_pos fun c h => (plain_mnemonic opcode c h).1, ends,
    List.append_nil, String.ofList_toList]

theorem numerals_mnemonic (opcode : Opcode) (cs : List Char) :
    numerals (opcode.mnemonic.toList ++ cs) = numerals cs :=
  numerals_append_others (fun c h => (plain_mnemonic opcode c h).2) cs

variable {opcode : Opcode} {operands : List UInt8}

/-- Each operand is shown as a numeral, some of them behind the letter of a register. -/
theorem toList_text_two (opcode : Opcode) (a b : UInt8) :
    ∃ letter, (∀ c ∈ letter, c.isDigit = false) ∧
      (Item.instruction opcode [a, b]).text.toList = opcode.mnemonic.toList ++
        ' ' :: 'R' :: (decimalDigits a.toNat ++ ',' :: (letter ++ decimalDigits b.toNat)) := by
  by_cases load : opcode = .ldi
  · subst load
    refine ⟨[], nofun, ?_⟩
    simp [text, registerText, decimal, Opcode.mnemonic]
  · have letter : ∀ c ∈ ['R'], c.isDigit = false := by
      intro c h
      rw [List.mem_singleton.mp h]
      rfl
    refine ⟨['R'], letter, ?_⟩
    have shown : (Item.instruction opcode [a, b]).text =
        opcode.mnemonic ++ " " ++ registerText a ++ "," ++ registerText b := by
      cases opcode with
      | ldi => exact absurd rfl load
      | _ => rfl
    rw [shown]
    simp [registerText, decimal]

/-- The text of an instruction shows its name and its operands. -/
theorem Phrase.ofText_instruction (whole : operands.length = opcode.operandCount) :
    Phrase.ofText (Item.instruction opcode operands).text =
      ⟨opcode.mnemonic, operands.map UInt8.toNat⟩ := by
  have few := opcode.operandCount_le_two
  unfold Phrase.ofText
  rw [Phrase.mk.injEq]
  match operands with
  | [] =>
    have shown : (Item.instruction opcode []).text.toList = opcode.mnemonic.toList ++ [] := by
      cases opcode <;> rfl
    rw [shown]
    refine ⟨takeWhile_mnemonic opcode rfl, ?_⟩
    rw [numerals_mnemonic]
    rfl
  | [a] =>
    have shown : (Item.instruction opcode [a]).text.toList =
        opcode.mnemonic.toList ++ ' ' :: 'R' :: decimalDigits a.toNat := by
      cases opcode <;> simp [text, registerText, decimal]
    rw [shown]
    refine ⟨takeWhile_mnemonic opcode rfl, ?_⟩
    rw [numerals_mnemonic, numerals_cons_other rfl, numerals_cons_other rfl,
      numerals_decimalDigits]
    rfl
  | [a, b] =>
    obtain ⟨letter, others, shown⟩ := toList_text_two opcode a b
    rw [shown]
    refine ⟨takeWhile_mnemonic opcode rfl, ?_⟩
    rw [numerals_mnemonic, numerals_cons_other rfl, numerals_cons_other rfl,
      numerals_decimalDigits_append _ rfl, numerals_append_others others, numerals_decimalDigits]
    rfl
  | _ :: _ :: _ :: _ =>
    simp only [List.length_cons] at whole
    omega

theorem Phrase.word_data (byte : UInt8) : (Phrase.ofText (Item.data byte).text).word = "DB" := by
  unfold Phrase.ofText
  simp [text]

end Item

/-! ## What is listed at the program counter -/

namespace Machine

variable {machine : Machine} {opcode : Opcode} {a b byte : UInt8}

theorem itemAt?_of_ge (outside : 256 ≤ machine.pc) :
    itemAt? machine.store.memory.toList machine.pc = none := by
  unfold itemAt?
  rw [List.drop_of_length_le (by rw [Memory.length_toList]; exact outside)]
  rfl

theorem itemAt?_of_unknown (here : machine.store.memory.cell? machine.pc = some byte)
    (unknown : Opcode.decode? byte = none) :
    itemAt? machine.store.memory.toList machine.pc = some (.data byte) := by
  unfold itemAt?
  rw [Memory.drop_toList here, Item.decode?, unknown]

theorem itemAt?_of_cut_off (here : machine.store.memory.cell? machine.pc = some opcode.encode)
    (cut : 256 ≤ machine.pc + opcode.operandCount) :
    itemAt? machine.store.memory.toList machine.pc = some (.data opcode.encode) := by
  have short : ¬ opcode.operandCount ≤
      (machine.store.memory.toList.drop (machine.pc + 1)).length := by
    rw [List.length_drop, Memory.length_toList]
    have := Memory.lt_of_cell? here
    omega
  unfold itemAt?
  rw [Memory.drop_toList here, Item.decode?, Opcode.decode?_encode]
  exact if_neg short

/-- The instruction that is fetched is the one that is shown, with its operands. -/
theorem itemAt?_of_holds (holds : machine.Holds opcode a b) :
    ∃ operands, itemAt? machine.store.memory.toList machine.pc =
        some (.instruction opcode operands) ∧
      operands.length = opcode.operandCount ∧
      a = operands.getD 0 0 ∧ b = operands.getD 1 0 := by
  have fits : opcode.operandCount ≤
      (machine.store.memory.toList.drop (machine.pc + 1)).length := by
    have := holds.lt
    rw [List.length_drop, Memory.length_toList]
    omega
  obtain ⟨operands, decoded⟩ : ∃ operands,
      Item.decode? (machine.store.memory.toList.drop machine.pc) =
        some (.instruction opcode operands) := by
    rw [Memory.drop_toList holds.here, Item.decode?, Opcode.decode?_encode]
    exact ⟨_, if_pos fits⟩
  have ahead : machine.ShowsAhead machine.store.memory.toList :=
    fun address _ _ => (Memory.getElem?_toList _ address).symm
  obtain ⟨-, first, second⟩ := holds.unique (holds_of_listed ahead decoded)
  exact ⟨operands, decoded, Item.length_operands decoded, first, second⟩

/-! ## Calls of handlers -/

/-- The step of the machine calls `handler` with `a` and `b`. They were fetched, the
step fails just if the handler fails, and registers, memory and output are then as the
handler leaves them. -/
structure Calls (machine : Machine) (sink : Sink) (handler : Handler) (a b : UInt8) : Prop where
  running : machine.status = .running
  fetched : ∃ length, machine.fetch = .ok { handler, a, b, length }
  announced : (machine.step sink).log.head? = some machine.dispatchRecord
  store : (machine.step sink).machine.store = (machine.perform handler a b sink).machine.store
  printed : (machine.step sink).sink = (machine.perform handler a b sink).sink
  fails_iff : ∀ fault, (machine.step sink).result = .error fault ↔
    (machine.perform handler a b sink).result = .error fault

variable {sink : Sink}

/-- Whatever is fetched is called. -/
theorem calls_of_fetch (running : machine.status = .running) {fetched : Fetched}
    (fetch : machine.fetch = .ok fetched) (sink : Sink) :
    machine.Calls sink fetched.handler fetched.a fetched.b := by
  have step_eq : machine.step sink =
      { machine.execute fetched sink with
        log := machine.dispatchRecord :: (machine.execute fetched sink).log
        trace := machine.traced } := by
    unfold step cycle
    rw [running, cycleThrough_of_fetch fetch]
  refine ⟨running, ⟨fetched.length, fetch⟩, ?_, ?_, ?_, ?_⟩
  · rw [step_eq]
    rfl
  all_goals
    rw [step_eq]
    unfold execute
    dsimp only
  · split <;> rfl
  · split <;> rfl
  · intro fault
    split
    · rename_i answer
      simp [answer]
    · rename_i answer
      simp [answer]
    · rename_i answer
      simp [answer, stop]

/-- Where a whole instruction stands, no step fails for the lack of a cell or of an
instruction. -/
theorem step_fault_of_holds (running : machine.status = .running)
    (holds : machine.Holds opcode a b) {fault : Fault}
    (failed : (machine.step sink).result = .error fault) :
    (∃ index, fault = .invalidRegister index) ∨
      fault = .stackOutOfBounds opcode machine.store.sp ∨ ∃ error, fault = .output error := by
  have case := step_case running sink
  generalize machine.step sink = outcome at case failed
  cases case with
  | unfetched missing =>
    rw [fetch_of_holds holds] at missing
    cases missing
  | refused holds' refusal =>
    obtain ⟨rfl, rfl, rfl⟩ := holds.unique holds'
    cases failed
    rcases (row_iff.mpr refusal).refusal with register | stack
    · exact .inl register
    · exact .inr (.inl stack)
  | unprinted =>
    cases failed
    exact .inr (.inr ⟨_, rfl⟩)
  | next | halt => cases failed

/-! ## What a text tells of a step -/

/-- The `text` and the `length` of what stands at the program counter tell what the step
of the machine does. -/
structure FollowsText (machine : Machine) (sink : Sink) (text : String) (length : Nat) :
    Prop where
  calls_iff : (∃ handler a b, machine.Calls sink handler a b) ↔
    text ≠ "??" ∧ (Item.Phrase.ofText text).word ≠ "DB"
  calls : ∀ handler a b, machine.Calls sink handler a b →
    ∃ opcode : Opcode, (Item.Phrase.ofText text).word = opcode.mnemonic ∧
      handler = opcode.handler ∧
      (Item.Phrase.ofText text).numbers.length = opcode.operandCount ∧
      a.toNat = (Item.Phrase.ofText text).numbers.getD 0 0 ∧
      b.toNat = (Item.Phrase.ofText text).numbers.getD 1 0
  moves : (machine.step sink).result = .ok .running →
    (machine.step sink).machine.pc = machine.pc + length
  outside_iff : text = "??" ↔ machine.pc = 256
  outside : text = "??" → (machine.step sink).result = .error (.addressOutOfBounds 256)
  data_iff : (Item.Phrase.ofText text).word = "DB" ↔
    ∃ byte, machine.store.memory.cell? machine.pc = some byte ∧
      ((machine.step sink).result = .error (.unknownInstruction machine.pc byte) ∨
        (∃ opcode, Opcode.encode opcode = byte ∧ 256 ≤ machine.pc + opcode.operandCount) ∧
          (machine.step sink).result = .error (.addressOutOfBounds 256))
  data : (Item.Phrase.ofText text).word = "DB" →
    ∃ byte, machine.store.memory.cell? machine.pc = some byte ∧ text = "DB 0x" ++ hexByte byte

/-- Where nothing is fetched nothing is called, and it is for the text to tell why. -/
theorem followsText_of_fetch_error (running : machine.status = .running) {fault : Fault}
    (missing : machine.fetch = .error fault) {text : String}
    (noCode : text = "??" ∨ (Item.Phrase.ofText text).word = "DB")
    (outside_iff : text = "??" ↔ machine.pc = 256)
    (outside : text = "??" → fault = .addressOutOfBounds 256)
    (data_iff : (Item.Phrase.ofText text).word = "DB" ↔
      ∃ byte, machine.store.memory.cell? machine.pc = some byte ∧
        (fault = .unknownInstruction machine.pc byte ∨
          (∃ opcode, Opcode.encode opcode = byte ∧ 256 ≤ machine.pc + opcode.operandCount) ∧
            fault = .addressOutOfBounds 256))
    (data : (Item.Phrase.ofText text).word = "DB" →
      ∃ byte, machine.store.memory.cell? machine.pc = some byte ∧ text = "DB 0x" ++ hexByte byte)
    (sink : Sink) : machine.FollowsText sink text 1 := by
  have result : (machine.step sink).result = .error fault := by
    rw [step_of_fetch_error running missing]
  have uncalled (handler : Handler) (a b : UInt8) : ¬ machine.Calls sink handler a b := by
    intro calls
    obtain ⟨length, fetched⟩ := calls.fetched
    rw [missing] at fetched
    cases fetched
  refine ⟨?_, ?_, ?_, outside_iff, ?_, ?_, data⟩
  · constructor
    · rintro ⟨handler, a, b, calls⟩
      exact absurd calls (uncalled handler a b)
    · rintro ⟨inside, code⟩
      rcases noCode with mark | mark
      · exact absurd mark inside
      · exact absurd mark code
  · intro handler a b calls
    exact absurd calls (uncalled handler a b)
  · intro goesOn
    rw [result] at goesOn
    cases goesOn
  · intro mark
    rw [result, outside mark]
  · simp only [result, Except.error.injEq]
    exact data_iff

theorem followsText_of_end (running : machine.status = .running) (last : machine.pc = 256)
    (sink : Sink) : machine.FollowsText sink "??" 1 := by
  have missing : machine.fetch = .error (.addressOutOfBounds 256) := by
    rw [fetch_of_ge (Nat.le_of_eq last.symm), last]
  have word : (Item.Phrase.ofText "??").word ≠ "DB" := by decide
  refine followsText_of_fetch_error running missing (.inl rfl) ?_ (fun _ => rfl) ?_ ?_ sink
  · exact ⟨fun _ => last, fun _ => rfl⟩
  · constructor
    · intro data
      exact absurd data word
    · rintro ⟨byte, here, -⟩
      have := Memory.lt_of_cell? here
      omega
  · intro data
    exact absurd data word

theorem followsText_of_data (running : machine.status = .running) {fault : Fault}
    (here : machine.store.memory.cell? machine.pc = some byte)
    (missing : machine.fetch = .error fault)
    (reason : fault = .unknownInstruction machine.pc byte ∨
      (∃ opcode, Opcode.encode opcode = byte ∧ 256 ≤ machine.pc + opcode.operandCount) ∧
        fault = .addressOutOfBounds 256) (sink : Sink) :
    machine.FollowsText sink (Item.data byte).text 1 := by
  have word := Item.Phrase.word_data byte
  have inside : (Item.data byte).text ≠ "??" := by
    intro same
    rw [same] at word
    exact absurd word (by decide)
  refine followsText_of_fetch_error running missing (.inr word) ?_ ?_ ?_ ?_ sink
  · constructor
    · intro outside
      exact absurd outside inside
    · intro last
      have := Memory.lt_of_cell? here
      omega
  · intro outside
    exact absurd outside inside
  · exact ⟨fun _ => ⟨byte, here, reason⟩, fun _ => word⟩
  · exact fun _ => ⟨byte, here, rfl⟩

theorem followsText_of_instruction (running : machine.status = .running)
    (holds : machine.Holds opcode a b) {operands : List UInt8}
    (whole : operands.length = opcode.operandCount) (first : a = operands.getD 0 0)
    (second : b = operands.getD 1 0) (sink : Sink) :
    machine.FollowsText sink (Item.instruction opcode operands).text
      (opcode.operandCount + 1) := by
  have fetched := fetch_of_holds holds
  have phrase := Item.Phrase.ofText_instruction whole
  have code : (Item.Phrase.ofText (Item.instruction opcode operands).text).word ≠ "DB" := by
    rw [phrase]
    exact (Item.mnemonic_ne_marks opcode).1
  have inside : (Item.instruction opcode operands).text ≠ "??" := by
    intro same
    have marks : (Item.Phrase.ofText "??").word = "??" := by decide
    rw [same] at phrase
    rw [phrase] at marks
    exact (Item.mnemonic_ne_marks opcode).2 marks
  refine ⟨?_, ?_, ?_, ?_, ?_, ?_, ?_⟩
  · exact ⟨fun _ => ⟨inside, code⟩, fun _ => ⟨_, _, _, calls_of_fetch running fetched sink⟩⟩
  · intro handler a' b' calls
    obtain ⟨length, same⟩ := calls.fetched
    rw [fetched] at same
    cases same
    rw [phrase, first, second]
    refine ⟨opcode, rfl, rfl, ?_, ?_, ?_⟩
    · rw [List.length_map, whole]
    · exact (List.getD_map ..).symm
    · exact (List.getD_map ..).symm
  · intro goesOn
    obtain ⟨opcode', a', b', effect, holds', -, -, after, -⟩ := step_of_running goesOn
    obtain ⟨rfl, -, -⟩ := holds.unique holds'
    rw [after]
  · constructor
    · intro outside
      exact absurd outside inside
    · intro last
      have := Memory.lt_of_cell? holds.here
      omega
  · intro outside
    exact absurd outside inside
  · constructor
    · intro data
      exact absurd data code
    · rintro ⟨byte, -, unknown | ⟨-, missed⟩⟩
      · rcases step_fault_of_holds running holds unknown with ⟨_, same⟩ | same | ⟨_, same⟩
        all_goals cases same
      · rcases step_fault_of_holds running holds missed with ⟨_, same⟩ | same | ⟨_, same⟩
        all_goals cases same
  · intro data
    exact absurd data code

/-- **Fetching is as listed.** Of a running machine whose program counter is in memory
or right behind it, whatever memory holds: the step calls a handler just where the text
of what stands there shows an instruction; it is the handler of the instruction that is
named, called with the operands that are shown, where missing ones are zero; and the
length shown is how far a step that goes on moves. Right behind memory alone there are
two question marks, and a data byte is shown just where the step fails because the byte
is no instruction or one that memory cuts off. -/
theorem step_follows_text (running : machine.status = .running) (bounded : machine.pc ≤ 256)
    (sink : Sink) :
    machine.FollowsText sink (disassembleAt machine.store.memory.toList machine.pc).1
      (disassembleAt machine.store.memory.toList machine.pc).2 := by
  unfold disassembleAt
  rcases machine.fetch_cases with outside | ⟨byte, here, unknown⟩ | ⟨opcode, here, cut⟩ |
    ⟨opcode, a, b, holds⟩
  · rw [itemAt?_of_ge outside]
    exact followsText_of_end running (Nat.le_antisymm bounded outside) sink
  · rw [itemAt?_of_unknown here unknown]
    exact followsText_of_data running here (fetch_of_unknown here unknown) (.inl rfl) sink
  · rw [itemAt?_of_cut_off here cut]
    exact followsText_of_data running here (fetch_of_cut_off here cut)
      (.inr ⟨⟨opcode, rfl, cut⟩, rfl⟩) sink
  · obtain ⟨operands, item, whole, first, second⟩ := itemAt?_of_holds holds
    rw [item]
    have length : Item.lengthOf (some (.instruction opcode operands)) =
        opcode.operandCount + 1 := congrArg (· + 1) whole
    dsimp only
    rw [length]
    exact followsText_of_instruction running holds whole first second sink

/-- HLT in the last cell has no operands to be cut off. -/
theorem step_follows_text_last_cell :
    let machine : Machine := { pc := 255, store := Store.initial.setCell 255 0x01 }
    ∃ handler a b, machine.Calls .unlimited handler a b := by
  intro machine
  have running : machine.status = .running := rfl
  have follows := step_follows_text running (by decide) .unlimited
  exact follows.calls_iff.mpr (by decide +kernel)

end Machine

end ByteMachine
