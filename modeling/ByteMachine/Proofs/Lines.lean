import Mathlib.Data.List.Basic
import Mathlib.Data.List.TakeWhile
import Mathlib.Data.Nat.Init
import ByteMachine.Text.Blank
import ByteMachine.Text.Line

/-!
# Lines of a text

What the lines of a text are, and what is left of one without its blank ends,
said by cutting the text in pieces. `mem_zipIdx_lines` and `isCore_iff` say that
`lines` and `trim` find these pieces and no others.
-/

namespace ByteMachine.Text

/-! ## Lines -/

/-- `line` ends before `rest`, the last line of a text also with the text. -/
inductive EndsBefore (line : List Char) : (rest : List Char) → Prop
  | feed (back : List Char) (plain : line.getLast? ≠ some '\r') : EndsBefore line ('\n' :: back)
  | returnFeed (back : List Char) : EndsBefore line ('\r' :: '\n' :: back)
  | last (nonempty : line ≠ []) : EndsBefore line []

/-- `line` is the line of `text` that has `front` before it. -/
structure LineAt (text front line : List Char) : Prop where
  starts : front = [] ∨ front.getLast? = some '\n'
  unbroken : '\n' ∉ line
  ends : ∃ rest, text = front ++ line ++ rest ∧ EndsBefore line rest

variable {text front line a b : List Char}

theorem linesFrom_append_of_notMem (line : List Char) (whole : '\n' ∉ a) :
    linesFrom line (a ++ b) = linesFrom (a.reverse ++ line) b := by
  induction a generalizing line with
  | nil => rfl
  | cons c a ih =>
    simp only [List.mem_cons, not_or] at whole
    rw [List.cons_append, linesFrom, if_neg (Ne.symm whole.1), ih _ whole.2]
    simp

/-- A text without line feeds is one line, unless it is empty. -/
theorem lines_of_notMem (whole : '\n' ∉ a) : lines a = if a.isEmpty then [] else [a] := by
  have read := linesFrom_append_of_notMem (b := []) [] whole
  rw [List.append_nil] at read
  simp [lines, read, linesFrom]

/-- The first line of a text goes to its first line feed. -/
theorem lines_feed (whole : '\n' ∉ a) :
    lines (a ++ '\n' :: b) = (dropReturn a.reverse).reverse :: lines b := by
  rw [lines, linesFrom_append_of_notMem [] whole, List.append_nil]
  rfl

theorem dropReturn_of_head?_ne (plain : line.head? ≠ some '\r') : dropReturn line = line := by
  unfold dropReturn
  split
  · exact absurd rfl plain
  · rfl

/-- A text has a character, such as its first line feed, for the first time at one place. -/
theorem append_mark_inj {mark : Char} {c d : List Char} (ha : mark ∉ a) (hc : mark ∉ c)
    (same : a ++ mark :: b = c ++ mark :: d) : a = c ∧ b = d := by
  rw [List.append_eq_append_iff] at same
  rcases same with ⟨between, rfl, same⟩ | ⟨between, rfl, same⟩
  · cases between with
    | nil => simpa using same
    | cons x between =>
      obtain ⟨rfl, -⟩ := List.cons.inj same
      simp at hc
  · cases between with
    | nil => simpa [eq_comm] using same
    | cons x between =>
      obtain ⟨rfl, -⟩ := List.cons.inj same
      simp at ha

theorem lineAt_nil_feed_iff (whole : '\n' ∉ a) :
    LineAt (a ++ '\n' :: b) [] line ↔ line = (dropReturn a.reverse).reverse := by
  constructor
  · rintro ⟨-, unbroken, rest, split, ends⟩
    rw [List.nil_append] at split
    cases ends with
    | feed back plain =>
      obtain ⟨rfl, -⟩ := append_mark_inj whole unbroken split
      rw [dropReturn_of_head?_ne (by simpa using plain), List.reverse_reverse]
    | returnFeed back =>
      rw [List.append_cons line] at split
      obtain ⟨rfl, -⟩ := append_mark_inj whole (by simpa using unbroken) split
      simp [dropReturn]
    | last =>
      rw [List.append_nil] at split
      simp [← split] at unbroken
  · rintro rfl
    by_cases plain : a.getLast? = some '\r'
    · obtain ⟨front, rfl⟩ := List.getLast?_eq_some_iff.mp plain
      refine ⟨.inl rfl, ?_, '\r' :: '\n' :: b, ?_, .returnFeed b⟩
      · simpa [dropReturn] using whole
      · simp [dropReturn]
    · rw [dropReturn_of_head?_ne (by simpa using plain), List.reverse_reverse]
      exact ⟨.inl rfl, whole, _, rfl, .feed b plain⟩

theorem lineAt_of_notMem (whole : '\n' ∉ text) :
    LineAt text front line ↔ front = [] ∧ line = text ∧ text ≠ [] := by
  constructor
  · rintro ⟨starts, unbroken, rest, rfl, ends⟩
    have none : front = [] := by
      refine starts.resolve_right fun feed => whole ?_
      simp [List.mem_of_getLast? feed]
    cases ends with
    | feed | returnFeed => simp at whole
    | last nonempty => simpa [none] using nonempty
  · rintro ⟨rfl, rfl, nonempty⟩
    exact ⟨.inl rfl, whole, [], by simp, .last nonempty⟩

/-- The lines behind a line feed are those of what follows it. -/
theorem lineAt_append_feed :
    LineAt (a ++ '\n' :: b) (a ++ '\n' :: front) line ↔ LineAt b front line := by
  have rest_eq (rest : List Char) :
      a ++ '\n' :: b = a ++ '\n' :: front ++ line ++ rest ↔ b = front ++ line ++ rest := by simp
  have starts_iff : (a ++ '\n' :: front = [] ∨ (a ++ '\n' :: front).getLast? = some '\n') ↔
      (front = [] ∨ front.getLast? = some '\n') := by
    rcases front.eq_nil_or_concat with rfl | ⟨earlier, c, rfl⟩
    · simp
    · simp [List.getLast?_cons]
  constructor
  · rintro ⟨starts, unbroken, ends⟩
    simp only [rest_eq] at ends
    exact ⟨starts_iff.mp starts, unbroken, ends⟩
  · rintro ⟨starts, unbroken, ends⟩
    simp only [← rest_eq] at ends
    exact ⟨starts_iff.mpr starts, unbroken, ends⟩

/-- A line that does not begin the text has the first line feed before it. -/
theorem exists_of_lineAt_feed (whole : '\n' ∉ a) (later : front ≠ [])
    (h : LineAt (a ++ '\n' :: b) front line) : ∃ between, front = a ++ '\n' :: between := by
  obtain ⟨starts, -, rest, split, -⟩ := h
  have feed := List.mem_of_getLast? (starts.resolve_left later)
  rw [List.append_assoc, List.append_eq_append_iff] at split
  rcases split with ⟨between, rfl, split⟩ | ⟨between, rfl, -⟩
  · cases between with
    | nil => simp [whole] at feed
    | cons c between =>
      obtain ⟨rfl, -⟩ := List.cons.inj split
      exact ⟨between, rfl⟩
  · simp [feed] at whole

theorem lineAt_feed_iff (whole : '\n' ∉ a) :
    LineAt (a ++ '\n' :: b) front line ↔
      (front = [] ∧ line = (dropReturn a.reverse).reverse) ∨
        ∃ between, front = a ++ '\n' :: between ∧ LineAt b between line := by
  by_cases first : front = []
  · simp [first, lineAt_nil_feed_iff whole]
  · constructor
    · intro h
      obtain ⟨between, rfl⟩ := exists_of_lineAt_feed whole first h
      exact .inr ⟨between, rfl, lineAt_append_feed.mp h⟩
    · rintro (⟨empty, -⟩ | ⟨between, rfl, h⟩)
      · exact absurd empty first
      · exact lineAt_append_feed.mpr h

/-- The lines of a text are numbered by the line feeds before them. -/
theorem mem_zipIdx_lines {k number : Nat} :
    (line, number) ∈ (lines text).zipIdx k ↔
      ∃ front, LineAt text front line ∧ number = k + front.count '\n' := by
  -- behind its first line feed the text is shorter, and all numbers are one higher
  induction size : text.length using Nat.strong_induction_on generalizing text k with
  | h n ih =>
  by_cases feed : '\n' ∈ text
  · obtain ⟨a, b, rfl, whole⟩ := List.eq_append_cons_of_mem feed
    have shorter : b.length < n := by
      rw [← size, List.length_append, List.length_cons]
      omega
    have count (between : List Char) :
        k + (a ++ '\n' :: between).count '\n' = k + 1 + between.count '\n' := by
      rw [List.count_append, List.count_eq_zero.mpr whole, List.count_cons_self]
      omega
    rw [lines_feed whole, List.zipIdx_cons, List.mem_cons, ih _ shorter rfl]
    simp only [lineAt_feed_iff whole, Prod.mk.injEq]
    constructor
    · rintro (⟨rfl, rfl⟩ | ⟨between, h, rfl⟩)
      · exact ⟨[], .inl ⟨rfl, rfl⟩, rfl⟩
      · exact ⟨_, .inr ⟨between, rfl, h⟩, (count between).symm⟩
    · rintro ⟨front, ⟨rfl, rfl⟩ | ⟨between, rfl, h⟩, rfl⟩
      · exact .inl ⟨rfl, rfl⟩
      · exact .inr ⟨between, h, count between⟩
  · rw [lines_of_notMem feed]
    simp only [lineAt_of_notMem feed]
    by_cases empty : text = []
    · simp [empty]
    · simp [empty]

example : (lines ['1', '\r', '0', '\r', '\n', '\n']).zipIdx = [(['1', '\r', '0'], 0), ([], 1)] := by
  decide

example : lines ['1', '\r'] = [['1', '\r']] := by decide

/-! ## Blank ends -/

/-- `core` is `text` without the blank characters around it. -/
structure IsCore (text core : List Char) : Prop where
  parts : ∃ lead trail, text = lead ++ core ++ trail ∧
    (∀ c ∈ lead, isBlank c) ∧ (∀ c ∈ trail, isBlank c)
  head : ∀ c ∈ core.head?, ¬ isBlank c
  last : ∀ c ∈ core.getLast?, ¬ isBlank c

section trim
variable {core : List Char}

theorem dropWhile_isBlank_append {lead rest : List Char} (blank : ∀ c ∈ lead, isBlank c)
    (head : ∀ c ∈ rest.head?, ¬ isBlank c) : (lead ++ rest).dropWhile isBlank = rest := by
  rw [List.dropWhile_append_of_pos blank]
  cases rest with
  | nil => rfl
  | cons c rest => exact List.dropWhile_cons_of_neg (head c rfl)

theorem head?_dropWhile (p : Char → Bool) (text : List Char) :
    ∀ c ∈ (text.dropWhile p).head?, ¬ p c := by
  intro c h
  have stopped := List.head?_dropWhile_not p text
  rw [Option.mem_def.mp h] at stopped
  simpa using stopped

theorem isCore_trim (text : List Char) : IsCore text (trim text) := by
  let rest := text.dropWhile isBlank
  let trail := (rest.reverse.takeWhile isBlank).reverse
  have rest_eq : rest = trim text ++ trail := by
    rw [trim, ← List.reverse_append, List.takeWhile_append_dropWhile, List.reverse_reverse]
  refine ⟨⟨text.takeWhile isBlank, trail, ?_, ?_, ?_⟩, ?_, ?_⟩
  · rw [List.append_assoc, ← rest_eq, List.takeWhile_append_dropWhile]
  · exact fun c h => List.mem_takeWhile_imp h
  · exact fun c h => List.mem_takeWhile_imp (List.mem_reverse.mp h)
  · intro c h
    apply head?_dropWhile isBlank text
    show c ∈ rest.head?
    rw [rest_eq, List.head?_append, Option.mem_def.mp h]
    rfl
  · rw [trim, List.getLast?_reverse]
    exact head?_dropWhile _ _

theorem IsCore.trim_eq (h : IsCore text core) : trim text = core := by
  obtain ⟨⟨lead, trail, rfl, leading, trailing⟩, head, last⟩ := h
  have trailing' : ∀ c ∈ trail.reverse, isBlank c := fun c h => trailing c (List.mem_reverse.mp h)
  have last' : ∀ c ∈ core.reverse.head?, ¬ isBlank c := by rwa [List.head?_reverse]
  by_cases empty : core = []
  · have blank : ∀ c ∈ lead ++ trail, isBlank c := by
      intro c h
      exact (List.mem_append.mp h).elim (leading c) (trailing c)
    rw [empty, List.append_nil, trim, List.dropWhile_eq_nil_iff.mpr blank]
    rfl
  · have head' : ∀ c ∈ (core ++ trail).head?, ¬ isBlank c := by
      rwa [List.head?_append_of_ne_nil _ empty]
    rw [trim, List.append_assoc, dropWhile_isBlank_append leading head', List.reverse_append,
      dropWhile_isBlank_append trailing' last', List.reverse_reverse]

/-- A text has one core. -/
theorem isCore_iff : IsCore text core ↔ trim text = core := by
  constructor
  · exact IsCore.trim_eq
  · rintro rfl
    exact isCore_trim text

end trim

end ByteMachine.Text
