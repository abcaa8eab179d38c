import ByteMachine.Text.Blank
import ByteMachine.Text.Line
import ByteMachine.Text.Numeral

/-!
# Program text

A program is written one byte per line, as a binary literal. A `#` begins a
comment, which ends with its line, and a line without a literal is skipped. A
literal may begin with `0b` and may hold underscores anywhere after that; its
other characters are the digits `0` and `1`, of which it has at least one.
Leading zeros are free, so only the value decides whether it fits in a byte.
-/

namespace ByteMachine

/-- A literal with the line it stands on, counted from one. -/
structure Token where
  line : Nat
  literal : String
  value : UInt8
deriving DecidableEq, Repr

/-- What is wrong with a literal, and where. -/
inductive LexError
  | invalidLiteral (line : Nat) (literal : String)
  /-- The value is above 255. -/
  | overflow (line : Nat) (literal : String)
deriving DecidableEq, Repr

def LexError.message : LexError → String
  | invalidLiteral line literal =>
    "line " ++ Numeral.decimal line ++ ": invalid binary literal '" ++ literal ++ "'"
  | overflow line literal =>
    "line " ++ Numeral.decimal line ++ ": '" ++ literal ++ "' does not fit in 8 bits"

namespace Source

/-! ## Literals -/

/-- A literal without the mark of its base. -/
def withoutMark : (literal : List Char) → List Char
  | '0' :: 'b' :: rest => rest
  | literal => literal

/-- The digits of a literal, and whatever stands in their place. -/
def digits (literal : List Char) : List Char :=
  (withoutMark literal).filter (· != '_')

def isDigit (c : Char) : Bool :=
  c == '0' || c == '1'

def digitValue (c : Char) : Nat :=
  if c = '1' then 1 else 0

/-- The number that binary digits stand for. -/
def binaryValue (digits : List Char) : Nat :=
  digits.foldl (fun value c => 2 * value + digitValue c) 0

def isWellFormed (literal : List Char) : Bool :=
  !(digits literal).isEmpty && (digits literal).all isDigit

/-- The byte that the literal on line `line` stands for. A literal that is not
well-formed is not asked for its value. -/
def literalValue (line : Nat) (literal : List Char) : Except LexError UInt8 :=
  if isWellFormed literal then
    let value := binaryValue (digits literal)
    if value < 256 then .ok (UInt8.ofNat value)
    else .error (.overflow line (String.ofList literal))
  else .error (.invalidLiteral line (String.ofList literal))

def token (line : Nat) (literal : List Char) : Except LexError Token := do
  let value ← literalValue line literal
  return { line, literal := String.ofList literal, value }

/-! ## Lines -/

/-- A line without its comment and without blanks at either end. -/
def code (line : List Char) : List Char :=
  Text.trim (line.takeWhile (· != '#'))

/-- The lines that hold a literal, each with its number. -/
def literals (text : List Char) : List (Nat × List Char) :=
  (((Text.lines text).zipIdx 1).map fun (line, number) => (number, code line)).filter
    fun (_, literal) => !literal.isEmpty

/-- The tokens of a program text, or the error of its first faulty line. -/
def tokens (text : String) : Except LexError (List Token) :=
  (literals text.toList).mapM fun (line, literal) => token line literal

/-- The bytes of a program text. -/
def program (text : String) : Except LexError (List UInt8) := do
  let tokens ← tokens text
  return tokens.map Token.value

end Source

end ByteMachine
