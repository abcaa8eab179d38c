import Mathlib.Data.List.Count
import ByteMachine.Proofs.Grammar

/-!
# Joined program texts

Two program texts with a line feed between them are read one after the other:
the first as it is read alone, the second with its line numbers raised by the
lines before it (`joined_texts_are_read_in_turn`). Nothing at the joint changes
this. The first text may end in a line feed, in a comment, in blanks, or in a
carriage return that the joint makes part of a line end.
-/

namespace ByteMachine

/-! ## Further down a text -/

/-- The token of the same literal, `lines` lines further down. -/
def Token.shifted (lines : Nat) (token : Token) : Token :=
  { token with line := token.line + lines }

/-- The error about the same literal, `lines` lines further down. -/
def LexError.shifted (lines : Nat) : LexError → LexError
  | invalidLiteral line literal => invalidLiteral (line + lines) literal
  | overflow line literal => overflow (line + lines) literal

theorem Token.value_shifted (lines : Nat) (token : Token) :
    (token.shifted lines).value = token.value := rfl

/-- A line feed behind a text ends its last line, so that every line has one. -/
theorem Text.length_linesFrom_feed (line a : List Char) :
    (linesFrom line (a ++ ['\n'])).length = a.count '\n' + 1 := by
  induction a generalizing line with
  | nil => rfl
  | cons c a ih =>
    rw [List.cons_append, linesFrom]
    split
    next feed => rw [List.length_cons, ih, feed, List.count_cons_self]
    next other => rw [ih, List.count_cons_of_ne other]

namespace Source

/-! ## The joint

A line feed behind a text may make a carriage return part of a line end. The
carriage return was blank or in a comment before, so the line has the same code
without it. -/

theorem IsCode.append_return {line code : List Char} (h : IsCode line code) :
    IsCode (line ++ ['\r']) code := by
  obtain ⟨body, comment, rfl, clean, starts, core⟩ := h
  cases comment with
  | cons mark comment =>
    -- a comment goes to the end of its line
    refine ⟨body, mark :: (comment ++ ['\r']), ?_, clean, .inr ?_, core⟩
    · rw [List.append_assoc, List.cons_append]
    · simpa using starts
  | nil =>
    -- without one the carriage return is cut off with the blanks
    obtain ⟨⟨lead, trail, rfl, leading, trailing⟩, head, last⟩ := core
    refine ⟨lead ++ code ++ (trail ++ ['\r']), [], by simp, by simpa using clean, .inl rfl,
      ⟨lead, trail ++ ['\r'], rfl, leading, ?_⟩, head, last⟩
    intro c h
    rcases List.mem_append.mp h with old | new
    · exact trailing c old
    · obtain rfl := List.mem_singleton.mp new
      decide

theorem code_append_return (line : List Char) : code (line ++ ['\r']) = code line :=
  isCode_iff.mp (isCode_iff.mpr rfl).append_return

theorem code_dropReturn (line : List Char) :
    code (Text.dropReturn line).reverse = code line.reverse := by
  unfold Text.dropReturn
  split
  · rw [List.reverse_cons, code_append_return]
  · rfl

/-! ## The literals of joined texts -/

/-- The literals of `lines`, the first of which has this number. -/
def literalsFrom (number : Nat) (lines : List (List Char)) : List (Nat × List Char) :=
  ((lines.zipIdx number).map fun (line, number) => (number, code line)).filter
    fun (_, literal) => !literal.isEmpty

theorem literals_eq (text : List Char) : literals text = literalsFrom 1 (Text.lines text) := rfl

section literalsFrom
variable (number shift : Nat) (lines others : List (List Char))

theorem literalsFrom_append : literalsFrom number (lines ++ others) =
    literalsFrom number lines ++ literalsFrom (number + lines.length) others := by
  simp only [literalsFrom, List.zipIdx_append, List.map_append, List.filter_append]

theorem literalsFrom_cons (line : List Char) : literalsFrom number (line :: lines) =
    literalsFrom number [line] ++ literalsFrom (number + 1) lines :=
  literalsFrom_append number [line] lines

theorem literalsFrom_singleton (line : List Char) : literalsFrom number [line] =
    if (code line).isEmpty then [] else [(number, code line)] := by
  simp only [literalsFrom, List.zipIdx_singleton, List.map_singleton, List.filter_cons,
    List.filter_nil]
  cases (code line).isEmpty <;> rfl

theorem literalsFrom_add : literalsFrom (number + shift) lines =
    (literalsFrom number lines).map fun (number, literal) => (number + shift, literal) := by
  induction lines generalizing number with
  | nil => rfl
  | cons line lines ih =>
    rw [literalsFrom_cons, literalsFrom_cons number, List.map_append, Nat.add_right_comm, ih,
      literalsFrom_singleton, literalsFrom_singleton]
    split <;> rfl

/-- A line feed behind a text adds no literal and takes none away. -/
theorem literalsFrom_linesFrom_feed (line a : List Char) :
    literalsFrom number (Text.linesFrom line (a ++ ['\n'])) =
      literalsFrom number (Text.linesFrom line a) := by
  induction a generalizing number line with
  | nil =>
    have ended : literalsFrom number [(Text.dropReturn line).reverse] =
        literalsFrom number [line.reverse] := by
      rw [literalsFrom_singleton, literalsFrom_singleton, code_dropReturn]
    cases line with
    | nil => rfl
    | cons c line => exact ended
  | cons c a ih =>
    rw [List.cons_append, Text.linesFrom, Text.linesFrom]
    split
    · rw [literalsFrom_cons, ih, ← literalsFrom_cons]
    · exact ih _ _

end literalsFrom

theorem literals_append_feed (a b : List Char) : literals (a ++ '\n' :: b) = literals a ++
    (literals b).map fun (number, literal) => (number + (a.count '\n' + 1), literal) := by
  rw [literals_eq, Text.lines_append, literalsFrom_append]
  congr 1
  · exact literalsFrom_linesFrom_feed 1 [] a
  · rw [Text.lines, Text.length_linesFrom_feed, literalsFrom_add, literals_eq]

/-! ## The tokens of joined texts -/

/-- What was read, `lines` lines further down. -/
def shifted (lines : Nat) (read : Except LexError (List Token)) : Except LexError (List Token) :=
  (read.map (List.map (Token.shifted lines))).mapError (LexError.shifted lines)

theorem literalValue_add (number shift : Nat) (literal : List Char) :
    literalValue (number + shift) literal =
      (literalValue number literal).mapError (LexError.shifted shift) := by
  simp only [literalValue]
  split
  · split <;> rfl
  · rfl

theorem token_add (number shift : Nat) (literal : List Char) :
    token (number + shift) literal =
      ((token number literal).map (Token.shifted shift)).mapError (LexError.shifted shift) := by
  rw [token, token, literalValue_add]
  cases literalValue number literal <;> rfl

theorem mapM_token_add (shift : Nat) (entries : List (Nat × List Char)) :
    ((entries.map fun (number, literal) => (number + shift, literal)).mapM
      fun (number, literal) => token number literal) =
      shifted shift (entries.mapM fun (number, literal) => token number literal) := by
  induction entries with
  | nil => rfl
  | cons entry entries ih =>
    obtain ⟨number, literal⟩ := entry
    simp only [List.map_cons, List.mapM_cons, ih, token_add]
    cases token number literal with
    | error error => rfl
    | ok token => cases entries.mapM fun (number, literal) => Source.token number literal <;> rfl

variable (a b : String)

theorem tokens_append_feed : tokens (a ++ "\n" ++ b) = do
    let first ← tokens a
    let second ← shifted (a.toList.count '\n' + 1) (tokens b)
    return first ++ second := by
  have split : (a ++ "\n" ++ b).toList = a.toList ++ '\n' :: b.toList := by simp
  rw [tokens, split, literals_append_feed, List.mapM_append, mapM_token_add]
  rfl

theorem program_eq_ok_iff_tokens {text : String} {bytes : List UInt8} :
    program text = .ok bytes ↔ ∃ read, tokens text = .ok read ∧ bytes = read.map Token.value := by
  simp only [program_eq_ok_iff, tokens_eq_ok_iff]

theorem map_value_shifted (lines : Nat) (tokens : List Token) :
    (tokens.map (Token.shifted lines)).map Token.value = tokens.map Token.value := by
  simp only [List.map_map, Function.comp_def, Token.value_shifted]

/-- `a` and `b` with a line feed between them are read as `a` is alone, and then
as `b` is, further down by the lines of `a`. -/
structure ReadInTurn : Prop where
  /-- The first text is the first to be reported. -/
  first_fails : ∀ error, tokens a = .error error → tokens (a ++ "\n" ++ b) = .error error
  second_fails : ∀ first error, tokens a = .ok first → tokens b = .error error →
    tokens (a ++ "\n" ++ b) = .error (error.shifted (a.toList.count '\n' + 1))
  both_read : ∀ first second, tokens a = .ok first → tokens b = .ok second →
    tokens (a ++ "\n" ++ b) =
      .ok (first ++ second.map (Token.shifted (a.toList.count '\n' + 1)))
  images : ∀ first second, program a = .ok first → program b = .ok second →
    program (a ++ "\n" ++ b) = .ok (first ++ second)

/-- **Joined texts are read in turn.** Of two texts with a line feed between them
the first is read as if it stood alone, and decides alone if it has a fault. Then
the second is read; its tokens, or its error, are those of the second text alone
but for their line, which is higher by the line feeds of the first text and the
one at the joint. So the images of two programs are appended by appending their
texts. -/
theorem joined_texts_are_read_in_turn : ReadInTurn a b := by
  have both_read (first second : List Token) (read : tokens a = .ok first)
      (then_read : tokens b = .ok second) : tokens (a ++ "\n" ++ b) =
        .ok (first ++ second.map (Token.shifted (a.toList.count '\n' + 1))) := by
    rw [tokens_append_feed, read, then_read]
    rfl
  refine ⟨?_, ?_, both_read, ?_⟩
  · intro error failed
    rw [tokens_append_feed, failed]
    rfl
  · intro first error read failed
    rw [tokens_append_feed, read, failed]
    rfl
  · intro first second made then_made
    obtain ⟨tokens, read, rfl⟩ := program_eq_ok_iff_tokens.mp made
    obtain ⟨others, then_read, rfl⟩ := program_eq_ok_iff_tokens.mp then_made
    refine program_eq_ok_iff_tokens.mpr ⟨_, both_read _ _ read then_read, ?_⟩
    rw [List.map_append, map_value_shifted]

/-- The first text ends in a carriage return, behind its literal or in a comment. -/
theorem joined_texts_are_read_in_turn_at_carriage_returns :
    tokens ("\n1\r" ++ "\n" ++ "\r10") = .ok [⟨2, "1", 1⟩, ⟨3, "10", 2⟩] ∧
      program ("\n1\r" ++ "\n" ++ "\r10") = .ok [1, 2] ∧
      tokens ("\n1 # one\r" ++ "\n" ++ "1\r0") = .error (.invalidLiteral 3 "1\r0") ∧
      tokens ("100000000\r" ++ "\n" ++ "1\r0") = .error (.overflow 1 "100000000") := by
  refine ⟨?_, ?_, ?_, ?_⟩
  · exact (joined_texts_are_read_in_turn "\n1\r" "\r10").both_read [⟨2, "1", 1⟩] [⟨1, "10", 2⟩]
      (by decide +kernel) (by decide +kernel)
  · exact (joined_texts_are_read_in_turn "\n1\r" "\r10").images [1] [2]
      (by decide +kernel) (by decide +kernel)
  · exact (joined_texts_are_read_in_turn "\n1 # one\r" "1\r0").second_fails [⟨2, "1", 1⟩]
      (.invalidLiteral 1 "1\r0") (by decide +kernel) (by decide +kernel)
  · exact (joined_texts_are_read_in_turn "100000000\r" "1\r0").first_fails
      (.overflow 1 "100000000") (by decide +kernel)

end Source

end ByteMachine
