/-!
# Lines

A line ends at a line feed, with or without one carriage return before it. A
carriage return anywhere else is an ordinary character, and a text that ends in
a line feed has no empty line after it.
-/

namespace ByteMachine.Text

/-- A line read backwards, without the carriage return that belonged to its end. -/
def dropReturn : List Char → List Char
  | '\r' :: line => line
  | line => line

/-- The lines of `text`, where `line` holds what was read of the current line,
last character first. -/
def linesFrom (line : List Char) : (text : List Char) → List (List Char)
  | [] => if line.isEmpty then [] else [line.reverse]
  | c :: rest =>
    if c = '\n' then (dropReturn line).reverse :: linesFrom [] rest
    else linesFrom (c :: line) rest

def lines (text : List Char) : List (List Char) :=
  linesFrom [] text

/-! ## What ends a line

A text can be cut after any of its line feeds. -/

theorem linesFrom_append (line a b : List Char) :
    linesFrom line (a ++ '\n' :: b) = linesFrom line (a ++ ['\n']) ++ lines b := by
  induction a generalizing line with
  | nil => simp [linesFrom, lines]
  | cons c a ih =>
    simp only [List.cons_append, linesFrom]
    split
    · simp only [ih, List.cons_append]
    · exact ih _

theorem lines_append (a b : List Char) : lines (a ++ '\n' :: b) = lines (a ++ ['\n']) ++ lines b :=
  linesFrom_append [] a b

end ByteMachine.Text
