import ByteMachine.Proofs.Columns
import ByteMachine.Proofs.Lines
import ByteMachine.Source

/-!
# Errors read back from their messages

The message of an error tells the error: which one it is, and every number and text that it
is about. The message of a fault is read word by word, but for the text of an output error,
which may hold anything and stands last (`Fault.ofMessage?_message`). The message of a lexical
error quotes a literal that may hold anything as well; what stands before and behind the
quotes settle where it begins and ends (`LexError.message_eq_iff`). So no two errors share a message
(`messages_identify_errors`).
-/

namespace ByteMachine

open Numeral

/-! ## Sentences -/

/-- Word number `i` of a text, or nothing. -/
def wordAt (text : String) (i : Nat) : String :=
  String.ofList ((words text).getD i [])

theorem wordAt_intercalate {sentence : List String} (nonempty : sentence ≠ [])
    (whole : ∀ word ∈ sentence, ' ' ∉ word.toList) (i : Nat) :
    wordAt (" ".intercalate sentence) i = sentence.getD i "" := by
  have split : words (" ".intercalate sentence) = sentence.map String.toList := by
    unfold words
    rw [String.toList_intercalate]
    refine List.splitOn_intercalate ' ' ?_ ?_
    · simpa using whole
    · simpa using nonempty
  rw [wordAt, split, List.getD_eq_getElem?_getD, List.getElem?_map, List.getD_eq_getElem?_getD]
  cases sentence[i]? with
  | none => rfl
  | some word => exact String.ofList_toList

/-- The hexadecimal number that a word shows behind its `x`. -/
def hexOf (word : String) : Nat :=
  ofHexDigits ((word.toList.dropWhile (· != 'x')).drop 1)

def decimalOf (word : String) : Nat :=
  Nat.ofDigitChars 10 word.toList 0

theorem decimalOf_decimal (n : Nat) : decimalOf (decimal n) = n := by
  rw [decimalOf, decimal, String.toList_ofList, ofDigitChars_decimalDigits]

/-! ## Kinds in brackets -/

namespace IoError

namespace Kind

def all : List Kind :=
  [notFound, permissionDenied, connectionRefused, connectionReset, hostUnreachable,
   networkUnreachable, connectionAborted, notConnected, addrInUse, addrNotAvailable, networkDown,
   brokenPipe, alreadyExists, wouldBlock, notADirectory, isADirectory, directoryNotEmpty,
   readOnlyFilesystem, filesystemLoop, staleNetworkFileHandle, invalidInput, invalidData, timedOut,
   writeZero, storageFull, notSeekable, quotaExceeded, fileTooLarge, resourceBusy,
   executableFileBusy, deadlock, crossesDevices, tooManyLinks, invalidFilename,
   argumentListTooLong, interrupted, unsupported, unexpectedEof, outOfMemory, inProgress, other,
   uncategorized]

theorem mem_all (kind : Kind) : kind ∈ all := by
  cases kind <;> decide

/-- How a kind is shown in the message of a fault. -/
def bracketed (kind : Kind) : List Char :=
  '(' :: kind.description.toList ++ [')']

/-- No description begins another one with its bracket. One of them holds brackets itself, so
the first closing bracket need not be the last. -/
theorem eq_of_bracketed_prefix {kind found : Kind} (begins : kind.bracketed <+: found.bracketed) :
    kind = found := by
  have table : ∀ kind ∈ all, ∀ found ∈ all, kind.bracketed <+: found.bracketed → kind = found := by
    decide +kernel
  exact table kind kind.mem_all found found.mem_all begins

end Kind

/-- The error whose kind stands in brackets in front of `shown`, and its text behind a colon and
a blank. -/
def ofBracketed? (shown : List Char) : Option IoError :=
  (Kind.all.find? fun kind => kind.bracketed.isPrefixOf shown).map fun kind =>
    ⟨kind, String.ofList (shown.drop (kind.bracketed.length + 2))⟩

theorem find?_bracketed (kind : Kind) (rest : List Char) :
    Kind.all.find? (fun found => found.bracketed.isPrefixOf (kind.bracketed ++ rest)) =
      some kind := by
  have whole : kind.bracketed <+: kind.bracketed ++ rest := List.prefix_append _ _
  cases read : Kind.all.find? fun found => found.bracketed.isPrefixOf (kind.bracketed ++ rest) with
  | none =>
    have missed := List.find?_eq_none.mp read kind kind.mem_all
    exact absurd (List.isPrefixOf_iff_prefix.mpr whole) missed
  | some found =>
    have begins : found.bracketed <+: kind.bracketed ++ rest := by
      simpa using List.find?_some read
    rcases List.prefix_or_prefix_of_prefix begins whole with short | long
    · rw [Kind.eq_of_bracketed_prefix short]
    · rw [Kind.eq_of_bracketed_prefix long]

theorem ofBracketed?_bracketed (error : IoError) :
    ofBracketed? (error.kind.bracketed ++ ':' :: ' ' :: error.text.toList) = some error := by
  have behind : (error.kind.bracketed ++ ':' :: ' ' :: error.text.toList).drop
      (error.kind.bracketed.length + 2) = error.text.toList := by
    rw [List.drop_append]
    simp
  rw [ofBracketed?, find?_bracketed, Option.map_some, behind, String.ofList_toList]

end IoError

/-! ## Faults -/

namespace Fault

variable {fault : Fault}

/-- The words of the message of a fault that has no text of its own. -/
def sentence : Fault → List String
  | unknownInstruction address byte =>
    ["unknown", "instruction", "0x" ++ hexByte byte, "at", "address", "0x" ++ hex 2 address]
  | addressOutOfBounds address => ["address", "0x" ++ hex 1 address, "is", "out", "of", "bounds"]
  | stackOutOfBounds opcode sp =>
    ["stack", "pointer", "out", "of", "bounds:", opcode.mnemonic, "with", "sp=0x" ++ hexByte sp]
  | invalidRegister index => ["register", "index", decimal index.toNat, "out", "of", "bounds"]
  | programTooLarge length capacity =>
    ["program", "is", decimal length, "bytes,", "memory", "holds", decimal capacity]
  | halted => ["machine", "is", "halted"]
  | faulted => ["machine", "stopped", "after", "a", "fatal", "error"]
  | output _ => []

theorem message_eq_sentence (nonempty : fault.sentence ≠ []) :
    fault.message = " ".intercalate fault.sentence := by
  apply String.toList_inj.mp
  unfold message sentence
  cases fault with
  | output error => exact absurd rfl nonempty
  | programTooLarge length capacity => simp [tooLargeMessage]
  | _ => simp

/-- No field of a message is written with a blank. -/
theorem sentence_whole (fault : Fault) : ∀ word ∈ fault.sentence, ' ' ∉ word.toList := by
  have mnemonic (opcode : Opcode) : ' ' ∉ opcode.mnemonic.toList := by
    cases opcode <;> decide
  have numeral (n : Nat) : ' ' ∉ decimalDigits n := notMem_decimalDigits rfl n
  unfold sentence
  cases fault <;> simp [toList_hexByte, hex, decimal, mnemonic, numeral, blank_notMem_hexDigits]

theorem wordAt_message (fault : Fault) (nonempty : fault.sentence ≠ []) (i : Nat) :
    wordAt fault.message i = fault.sentence.getD i "" := by
  rw [message_eq_sentence nonempty, wordAt_intercalate nonempty fault.sentence_whole]

theorem toList_message_output (error : IoError) :
    (output error).message.toList = "output".toList ++ ' ' :: ("error".toList ++ ' ' ::
      (error.kind.bracketed ++ ':' :: ' ' :: error.text.toList)) := by
  unfold message IoError.Kind.bracketed
  simp

theorem wordAt_message_output (error : IoError) : wordAt (output error).message 0 = "output" := by
  rw [wordAt, words, toList_message_output, List.splitOn_append_cons_self_of_not_mem (by decide)]
  rfl

/-- The fault that a message tells of. Its first word says which one it is; only for a machine
that is stopped the second word has to. -/
def ofMessage? (message : String) : Option Fault :=
  match wordAt message 0 with
  | "unknown" =>
    some (.unknownInstruction (hexOf (wordAt message 5)) (UInt8.ofNat (hexOf (wordAt message 2))))
  | "address" => some (.addressOutOfBounds (hexOf (wordAt message 1)))
  | "stack" =>
    (Opcode.ofMnemonic? (wordAt message 5)).map fun opcode =>
      .stackOutOfBounds opcode (UInt8.ofNat (hexOf (wordAt message 7)))
  | "register" => some (.invalidRegister (UInt8.ofNat (decimalOf (wordAt message 2))))
  | "program" =>
    some (.programTooLarge (decimalOf (wordAt message 2)) (decimalOf (wordAt message 6)))
  | "machine" => some (if wordAt message 1 = "is" then .halted else .faulted)
  | "output" => (IoError.ofBracketed? (message.toList.drop 13)).map .output
  | _ => none

theorem ofMessage?_message (fault : Fault) : ofMessage? fault.message = some fault := by
  unfold ofMessage?
  cases fault with
  | output error =>
    have behind : (output error).message.toList.drop 13 =
        error.kind.bracketed ++ ':' :: ' ' :: error.text.toList := by
      rw [toList_message_output]
      rfl
    simp only [wordAt_message_output, behind, IoError.ofBracketed?_bracketed, Option.map_some]
  | unknownInstruction address byte =>
    simp only [wordAt_message (unknownInstruction address byte) (List.cons_ne_nil _ _)]
    simp [sentence, hexOf, toList_hexByte, hex, ofHexDigits_hexDigits]
  | addressOutOfBounds address =>
    simp only [wordAt_message (addressOutOfBounds address) (List.cons_ne_nil _ _)]
    simp [sentence, hexOf, hex, ofHexDigits_hexDigits]
  | stackOutOfBounds opcode sp =>
    simp only [wordAt_message (stackOutOfBounds opcode sp) (List.cons_ne_nil _ _)]
    simp [sentence, hexOf, toList_hexByte, ofHexDigits_hexDigits, Opcode.ofMnemonic?_mnemonic]
  | invalidRegister index =>
    simp only [wordAt_message (invalidRegister index) (List.cons_ne_nil _ _)]
    simp [sentence, decimalOf_decimal]
  | programTooLarge length capacity =>
    simp only [wordAt_message (programTooLarge length capacity) (List.cons_ne_nil _ _)]
    simp [sentence, decimalOf_decimal]
  | halted =>
    simp only [wordAt_message halted (List.cons_ne_nil _ _)]
    simp [sentence]
  | faulted =>
    simp only [wordAt_message faulted (List.cons_ne_nil _ _)]
    simp [sentence]

theorem message_eq_iff {other : Fault} : fault.message = other.message ↔ fault = other := by
  constructor
  · intro same
    have read := congrArg ofMessage? same
    rw [ofMessage?_message, ofMessage?_message] at read
    exact Option.some.inj read
  · rintro rfl
    rfl

end Fault

/-! ## Lexical errors -/

/-- A numeral ends where the first character stands that is no digit. -/
theorem decimalDigits_append_inj {mark : Char} (other : mark.isDigit = false) {m n : Nat}
    {cs ds : List Char} (same : decimalDigits m ++ mark :: cs = decimalDigits n ++ mark :: ds) :
    m = n ∧ cs = ds := by
  obtain ⟨digits, rest⟩ := Text.append_mark_inj (notMem_decimalDigits other m)
    (notMem_decimalDigits other n) same
  exact ⟨decimalDigits_injective digits, rest⟩

namespace LexError

variable {error found : LexError}

def line : LexError → Nat
  | invalidLiteral line _ | overflow line _ => line

/-- What a message says of its line. -/
def remark : LexError → List Char
  | invalidLiteral _ literal => "invalid binary literal '".toList ++ (literal.toList ++ ['\''])
  | overflow _ literal => '\'' :: (literal.toList ++ "' does not fit in 8 bits".toList)

theorem toList_message (error : LexError) :
    error.message.toList =
      "line ".toList ++ (decimalDigits error.line ++ ':' :: ' ' :: error.remark) := by
  unfold message line remark
  cases error with
  | invalidLiteral => simp [decimal]
  | overflow => simp [decimal]

/-- Only one of the remarks begins with a quote, and each of them has the literal between a
beginning and an end that do not depend on it. -/
theorem eq_of_remark_eq (line : error.line = found.line) (remark : error.remark = found.remark) :
    error = found := by
  cases error with
  | invalidLiteral m literal =>
    cases found with
    | invalidLiteral n quoted =>
      have literals := List.append_cancel_right (List.append_cancel_left remark)
      rw [invalidLiteral.injEq]
      exact ⟨line, String.toList_inj.mp literals⟩
    | overflow => cases remark
  | overflow m literal =>
    cases found with
    | invalidLiteral => cases remark
    | overflow n quoted =>
      have literals := List.append_cancel_right (List.cons.inj remark).2
      rw [overflow.injEq]
      exact ⟨line, String.toList_inj.mp literals⟩

theorem message_eq_iff : error.message = found.message ↔ error = found := by
  constructor
  · intro same
    have chars := congrArg String.toList same
    rw [toList_message, toList_message] at chars
    obtain ⟨line, rest⟩ := decimalDigits_append_inj rfl (List.append_cancel_left chars)
    exact eq_of_remark_eq line (List.cons.inj rest).2
  · rintro rfl
    rfl

end LexError

/-- **Messages identify errors.** Two faults, with whatever addresses, lengths, bytes and kinds
and with whatever text of an output error, have the same message just if they are the same; and
so have two lexical errors, with whatever lines and literals. -/
theorem messages_identify_errors :
    (∀ fault other : Fault, fault.message = other.message ↔ fault = other) ∧
    ∀ error other : LexError, error.message = other.message ↔ error = other := by
  constructor
  · intro fault other
    exact Fault.message_eq_iff
  · intro error other
    exact LexError.message_eq_iff

end ByteMachine
