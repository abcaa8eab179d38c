import ByteMachine.IoError

/-!
# Output sinks

Where a program's output goes. A write call offers text, and the sink answers
how much of it was taken or that it fails. `Sink.write` calls until everything
is taken, so that only a failure can leave a part of the text behind. What is
left then is tried once more when the output is flushed. All that is ever
written is ASCII, so a character here is one byte.
-/

namespace ByteMachine

/-- The answer to one write call. An interrupted call is made again and has no
answer of its own. -/
inductive Reply
  | accepted (count : Nat)
  | refused (error : IoError)
deriving DecidableEq, Repr

structure Sink where
  /-- The answer to a write call, from the number of calls before it, the text
  accepted before it and the text it offers. -/
  reply : (calls : Nat) → (accepted offered : List Char) → Reply
  /-- The answer to a flush that finds the rest of a line that failed with
  `failure`. -/
  retry : (failure : IoError) → Except IoError Unit := .error
  calls : Nat := 0
  /-- Everything accepted so far. -/
  text : List Char := []

namespace Sink

def push (sink : Sink) (c : Char) : Sink :=
  { sink with text := sink.text ++ [c] }

/-- Writes `offered`, of which the last call granted the first `granted`
characters. A call that takes nothing is a failure. -/
def writeGranted (sink : Sink) (granted : Nat) :
    (offered : List Char) → Sink × Except IoError Unit
  | [] => (sink, .ok ())
  | c :: rest =>
    match granted with
    | granted + 1 => (sink.push c).writeGranted granted rest
    | 0 =>
      let called := { sink with calls := sink.calls + 1 }
      match sink.reply sink.calls sink.text (c :: rest) with
      | .accepted 0 => (called, .error .nothingWritten)
      | .accepted (granted + 1) => (called.push c).writeGranted granted rest
      | .refused error => (called, .error error)

/-- Writes all of `text`, or fails after a part of it. -/
def write (sink : Sink) (text : List Char) : Sink × Except IoError Unit :=
  sink.writeGranted 0 text

/-- Writes `line`, and then the line feed that ends it. -/
def writeLine (sink : Sink) (line : List Char) : Sink × Except IoError Unit :=
  match sink.write line with
  | (sink, .ok ()) => sink.write ['\n']
  | (sink, .error error) => (sink, .error error)

/-- Flushes what is left of the line that failed with `failure`, if one did. With
nothing left there is nothing that can fail. -/
def flush (sink : Sink) : (failure : Option IoError) → Except IoError Unit
  | none => .ok ()
  | some failure => sink.retry failure

/-! ## Kinds of sink -/

def unlimited : Sink where
  reply _ _ offered := .accepted offered.length

/-- Fails every call. -/
def refusing (error : IoError) : Sink where
  reply _ _ _ := .refused error

/-- Accepts `limit` characters in all and at most `chunk call` of them, but at
least one, in one call. After that it fails with `failure`, or takes nothing if
there is none. -/
def limited (limit : Nat) (chunk : (call : Nat) → Nat) (failure : Option IoError) : Sink where
  reply calls accepted _ :=
    if accepted.length < limit then
      .accepted (min (max 1 (chunk calls)) (limit - accepted.length))
    else
      match failure with
      | some error => .refused error
      | none => .accepted 0

/-! ## What a write leaves behind -/

theorem text_push (sink : Sink) (c : Char) : (sink.push c).text = sink.text ++ [c] := rfl

/-- A write counts its calls and adds to the text. It changes nothing else of the
sink. -/
theorem exists_writeGranted_eq (sink : Sink) (granted : Nat) (offered : List Char) :
    ∃ calls text, (sink.writeGranted granted offered).1 = { sink with calls, text } := by
  induction offered generalizing sink granted with
  | nil => exact ⟨sink.calls, sink.text, rfl⟩
  | cons c rest ih =>
    unfold writeGranted
    split
    · exact ih (sink.push c) _
    · dsimp only
      split
      · exact ⟨_, _, rfl⟩
      · exact ih (push { sink with calls := sink.calls + 1 } c) _
      · exact ⟨_, _, rfl⟩

theorem text_writeGranted_of_ok {sink : Sink} {granted : Nat} {offered : List Char}
    (h : (sink.writeGranted granted offered).2 = .ok ()) :
    (sink.writeGranted granted offered).1.text = sink.text ++ offered := by
  induction offered generalizing sink granted with
  | nil => simp [writeGranted]
  | cons c rest ih =>
    unfold writeGranted at h ⊢
    split at h
    · rw [ih h, text_push, List.append_assoc, List.singleton_append]
    · dsimp only at h ⊢
      split at h
      · cases h
      · rw [ih h, text_push, List.append_assoc, List.singleton_append]
      · cases h

theorem text_writeGranted_of_error {sink : Sink} {granted : Nat} {offered : List Char}
    {error : IoError} (h : (sink.writeGranted granted offered).2 = .error error) :
    ∃ taken left, left ≠ [] ∧ offered = taken ++ left ∧
      (sink.writeGranted granted offered).1.text = sink.text ++ taken := by
  induction offered generalizing sink granted with
  | nil => cases h
  | cons c rest ih =>
    unfold writeGranted at h ⊢
    split at h
    · obtain ⟨taken, left, nonempty, rfl, text⟩ := ih h
      exact ⟨c :: taken, left, nonempty, rfl, by
        rw [text, text_push, List.append_assoc, List.singleton_append]⟩
    · dsimp only at h ⊢
      split at h
      · exact ⟨[], c :: rest, by simp, rfl, by simp⟩
      · obtain ⟨taken, left, nonempty, rfl, text⟩ := ih h
        exact ⟨c :: taken, left, nonempty, rfl, by
          rw [text, text_push, List.append_assoc, List.singleton_append]⟩
      · exact ⟨[], c :: rest, by simp, rfl, by simp⟩

theorem reply_write (sink : Sink) (text : List Char) : (sink.write text).1.reply = sink.reply := by
  obtain ⟨calls, accepted, after⟩ := sink.exists_writeGranted_eq 0 text
  rw [write, after]

/-- A write that succeeds leaves the whole text. -/
theorem text_write_of_ok {sink : Sink} {text : List Char} (h : (sink.write text).2 = .ok ()) :
    (sink.write text).1.text = sink.text ++ text :=
  text_writeGranted_of_ok h

/-- A write that fails leaves a part of the text, and never all of it. -/
theorem text_write_of_error {sink : Sink} {text : List Char} {error : IoError}
    (h : (sink.write text).2 = .error error) :
    ∃ taken left, left ≠ [] ∧ text = taken ++ left ∧
      (sink.write text).1.text = sink.text ++ taken :=
  text_writeGranted_of_error h

/-! ## What a line leaves behind -/

theorem writeLine_of_ok {sink : Sink} {line : List Char} (h : (sink.write line).2 = .ok ()) :
    sink.writeLine line = (sink.write line).1.write ['\n'] := by
  unfold writeLine
  split <;> simp_all

theorem writeLine_of_error {sink : Sink} {line : List Char} {error : IoError}
    (h : (sink.write line).2 = .error error) :
    sink.writeLine line = ((sink.write line).1, .error error) := by
  unfold writeLine
  split <;> simp_all

/-- A line that is written leaves itself and its line feed. -/
theorem text_writeLine_of_ok {sink : Sink} {line : List Char}
    (h : (sink.writeLine line).2 = .ok ()) :
    (sink.writeLine line).1.text = sink.text ++ (line ++ ['\n']) := by
  cases first : (sink.write line).2 with
  | error error =>
    rw [writeLine_of_error first] at h
    cases h
  | ok _ =>
    rw [writeLine_of_ok first] at h ⊢
    rw [text_write_of_ok h, text_write_of_ok first, List.append_assoc]

/-- A line that fails leaves a part of itself and its line feed, and never both
in full. -/
theorem text_writeLine_of_error {sink : Sink} {line : List Char} {error : IoError}
    (h : (sink.writeLine line).2 = .error error) :
    ∃ taken left, left ≠ [] ∧ line ++ ['\n'] = taken ++ left ∧
      (sink.writeLine line).1.text = sink.text ++ taken := by
  cases first : (sink.write line).2 with
  | error other =>
    obtain ⟨taken, left, nonempty, whole, text⟩ := text_write_of_error first
    rw [writeLine_of_error first]
    refine ⟨taken, left ++ ['\n'], by simp, ?_, text⟩
    rw [whole, List.append_assoc]
  | ok _ =>
    rw [writeLine_of_ok first] at h ⊢
    obtain ⟨taken, left, nonempty, whole, text⟩ := text_write_of_error h
    refine ⟨line ++ taken, left, nonempty, ?_, ?_⟩
    · rw [whole, List.append_assoc]
    · rw [text, text_write_of_ok first, List.append_assoc]

theorem exists_writeLine_eq (sink : Sink) (line : List Char) :
    ∃ calls text, (sink.writeLine line).1 = { sink with calls, text } := by
  obtain ⟨calls, text, after⟩ := sink.exists_writeGranted_eq 0 line
  cases first : (sink.write line).2 with
  | error error =>
    rw [writeLine_of_error first]
    exact ⟨calls, text, after⟩
  | ok _ =>
    rw [writeLine_of_ok first, write, write, after]
    exact exists_writeGranted_eq { sink with calls, text } 0 ['\n']

theorem reply_writeLine (sink : Sink) (line : List Char) :
    (sink.writeLine line).1.reply = sink.reply := by
  obtain ⟨calls, text, after⟩ := sink.exists_writeLine_eq line
  rw [after]

theorem retry_writeLine (sink : Sink) (line : List Char) :
    (sink.writeLine line).1.retry = sink.retry := by
  obtain ⟨calls, text, after⟩ := sink.exists_writeLine_eq line
  rw [after]

/-! ## Sinks that take everything -/

/-- Every call that offers something takes a part of it. -/
def Accepting (sink : Sink) : Prop :=
  ∀ calls accepted c rest, ∃ count,
    sink.reply calls accepted (c :: rest) = .accepted (count + 1)

theorem accepting_unlimited : unlimited.Accepting :=
  fun _ _ _ rest => ⟨rest.length, rfl⟩

theorem Accepting.of_reply_eq {sink after : Sink} (h : sink.Accepting)
    (same : after.reply = sink.reply) : after.Accepting := by
  unfold Accepting
  rw [same]
  exact h

theorem Accepting.writeGranted {sink : Sink} (h : sink.Accepting) (granted : Nat)
    (offered : List Char) : (sink.writeGranted granted offered).2 = .ok () := by
  induction offered generalizing sink granted with
  | nil => rfl
  | cons c rest ih =>
    unfold Sink.writeGranted
    cases granted with
    | succ granted =>
      refine ih ?_ granted
      exact h
    | zero =>
      obtain ⟨count, reply⟩ := h sink.calls sink.text c rest
      simp only [reply]
      refine ih ?_ count
      exact h

theorem Accepting.writeLine {sink : Sink} (h : sink.Accepting) (line : List Char) :
    (sink.writeLine line).2 = .ok () := by
  have first : (sink.write line).2 = .ok () := h.writeGranted 0 line
  have after : (sink.write line).1.Accepting := h.of_reply_eq (sink.reply_write line)
  rw [writeLine_of_ok first]
  exact after.writeGranted 0 ['\n']

end Sink

end ByteMachine
