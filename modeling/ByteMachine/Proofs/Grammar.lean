import Mathlib.Data.List.Nodup
import Mathlib.Data.Nat.Digits.Defs
import ByteMachine.Source
import ByteMachine.Proofs.Lines

/-!
# The grammar of program texts

What a program text has to look like, said without reading it from left to
right: a line has one code, a code is a literal or it is not, and a literal has
one value. `Source.tokens` reads every text all of whose literals stand for a
byte, and reports the first line of every other (`program_follows_grammar`).
-/

namespace ByteMachine.Source

/-! ## The code of a line -/

/-- `code` is what `line` holds before its comment, without the blank characters around it. -/
def IsCode (line code : List Char) : Prop :=
  ∃ body comment, line = body ++ comment ∧ '#' ∉ body ∧
    (comment = [] ∨ comment.head? = some '#') ∧ Text.IsCore body code

variable {line code : List Char}

/-- A line has one code. -/
theorem isCode_iff : IsCode line code ↔ Source.code line = code := by
  constructor
  · rintro ⟨body, comment, rfl, clean, starts, core⟩
    have kept : ∀ c ∈ body, (c != '#') = true := by
      intro c h
      simpa using ne_of_mem_of_not_mem h clean
    have cut : comment.takeWhile (· != '#') = [] := by
      cases comment with
      | nil => rfl
      | cons c comment => simp_all
    rw [Source.code, List.takeWhile_append_of_pos kept, cut, List.append_nil,
      Text.isCore_iff.mp core]
  · rintro rfl
    refine ⟨line.takeWhile (· != '#'), line.dropWhile (· != '#'), ?_, ?_, ?_,
      Text.isCore_iff.mpr rfl⟩
    · rw [List.takeWhile_append_dropWhile]
    · exact fun h => by simpa using List.mem_takeWhile_imp h
    · cases found : (line.dropWhile (· != '#')).head? with
      | none => exact .inl (List.head?_eq_none_iff.mp found)
      | some c =>
        have mark := Text.head?_dropWhile _ _ c found
        exact .inr (congrArg some (by simpa using mark))

/-! ## Literals -/

/-- `literal` is a binary numeral with this value: digits and underscores, at
least one digit, and the mark of the base before them or not. -/
def Denotes (literal : List Char) (value : Nat) : Prop :=
  ∃ body, (literal = body ∨ literal = '0' :: 'b' :: body) ∧
    (∀ c ∈ body, c = '0' ∨ c = '1' ∨ c = '_') ∧ (∃ c ∈ body, c = '0' ∨ c = '1') ∧
    value = Nat.ofDigits 2 ((body.filter (· != '_')).reverse.map fun c => if c = '1' then 1 else 0)

/-- `literal` stands for a byte. -/
def Fits (literal : List Char) : Prop :=
  ∃ value, Denotes literal value ∧ value ≤ 255

/-- What is wrong with `literal`, if anything is. -/
inductive Breaks (line : Nat) (literal : List Char) : LexError → Prop
  | invalid (unread : ¬ ∃ value, Denotes literal value) :
      Breaks line literal (.invalidLiteral line (String.ofList literal))
  | overflow {value : Nat} (denotes : Denotes literal value) (above : 255 < value) :
      Breaks line literal (.overflow line (String.ofList literal))

variable {literal : List Char} {value : Nat} {number : Nat} {error : LexError} {byte : UInt8}

theorem binaryValue_eq_ofDigits (digits : List Char) :
    binaryValue digits = Nat.ofDigits 2 (digits.reverse.map digitValue) := by
  rw [binaryValue, List.foldl_eq_foldr_reverse, Nat.ofDigits_eq_foldr, List.foldr_map]
  congr 1
  funext c value
  simp [Nat.add_comm]

/-- The mark of the base is not part of a body. -/
theorem withoutMark_of_body {body : List Char} (h : ∀ c ∈ body, c = '0' ∨ c = '1' ∨ c = '_') :
    withoutMark body = body := by
  unfold withoutMark
  split
  · simp at h
  · rfl

theorem eq_or_eq_withoutMark (literal : List Char) :
    literal = withoutMark literal ∨ literal = '0' :: 'b' :: withoutMark literal := by
  unfold withoutMark
  split
  · exact .inr rfl
  · exact .inl rfl

theorem isWellFormed_iff : isWellFormed literal ↔
    (∀ c ∈ withoutMark literal, c = '0' ∨ c = '1' ∨ c = '_') ∧
      ∃ c ∈ withoutMark literal, c = '0' ∨ c = '1' := by
  have drawn_iff (body : List Char) : (∀ c ∈ body, c ≠ '_' → c = '0' ∨ c = '1') ↔
      ∀ c ∈ body, c = '0' ∨ c = '1' ∨ c = '_' := by grind
  have digit_iff (body : List Char) (drawn : ∀ c ∈ body, c ≠ '_' → c = '0' ∨ c = '1') :
      (∃ c ∈ body, c ≠ '_') ↔ ∃ c ∈ body, c = '0' ∨ c = '1' := by grind
  rw [← drawn_iff, isWellFormed, Bool.and_eq_true, and_comm]
  simp only [digits, isDigit, List.all_eq_true, List.mem_filter, Bool.not_eq_true', bne_iff_ne,
    List.isEmpty_eq_false_iff_exists_mem, Bool.or_eq_true, beq_iff_eq, and_imp]
  exact and_congr_right (digit_iff _)

theorem denotes_iff : Denotes literal value ↔
    isWellFormed literal ∧ value = binaryValue (digits literal) := by
  rw [isWellFormed_iff, binaryValue_eq_ofDigits]
  constructor
  · rintro ⟨body, rfl | rfl, drawn, digit, rfl⟩
    · have same := withoutMark_of_body drawn
      rw [digits, same]
      exact ⟨⟨drawn, digit⟩, rfl⟩
    · exact ⟨⟨drawn, digit⟩, rfl⟩
  · rintro ⟨⟨drawn, digit⟩, rfl⟩
    exact ⟨_, eq_or_eq_withoutMark literal, drawn, digit, rfl⟩

example : ["0b0b1", "_0b1", "0_b1", "0b", "__", "+1"].any (isWellFormed ·.toList) = false := by
  decide

theorem Denotes.unique {other : Nat} (h : Denotes literal value) (h' : Denotes literal other) :
    value = other :=
  (denotes_iff.mp h).2.trans (denotes_iff.mp h').2.symm

theorem Denotes.fits (h : Denotes literal byte.toNat) : Fits literal :=
  ⟨_, h, Nat.le_of_lt_succ byte.toNat_lt⟩

theorem Breaks.unfit (h : Breaks number literal error) : ¬ Fits literal := by
  rintro ⟨value, denotes, fits⟩
  cases h with
  | invalid unread => exact unread ⟨value, denotes⟩
  | overflow denotes' above =>
    have same := denotes.unique denotes'
    omega

theorem literalValue_of_denotes (h : Denotes literal value) :
    literalValue number literal = if value < 256 then .ok (UInt8.ofNat value)
      else .error (.overflow number (String.ofList literal)) := by
  obtain ⟨wellFormed, rfl⟩ := denotes_iff.mp h
  rw [literalValue, if_pos wellFormed]

theorem literalValue_of_unread (unread : ¬ ∃ value, Denotes literal value) :
    literalValue number literal = .error (.invalidLiteral number (String.ofList literal)) := by
  rw [literalValue, if_neg]
  exact fun wellFormed => unread ⟨_, denotes_iff.mpr ⟨wellFormed, rfl⟩⟩

theorem literalValue_eq_ok_iff :
    literalValue number literal = .ok byte ↔ Denotes literal byte.toNat := by
  constructor
  · intro made
    by_cases read : ∃ value, Denotes literal value
    · obtain ⟨value, denotes⟩ := read
      rw [literalValue_of_denotes denotes] at made
      split at made
      next fits =>
        obtain rfl := Except.ok.inj made
        rwa [UInt8.toNat_ofNat_of_lt' fits]
      next => cases made
    · rw [literalValue_of_unread read] at made
      cases made
  · intro denotes
    rw [literalValue_of_denotes denotes, if_pos byte.toNat_lt, UInt8.ofNat_toNat]

theorem literalValue_eq_error_iff :
    literalValue number literal = .error error ↔ Breaks number literal error := by
  constructor
  · intro made
    by_cases read : ∃ value, Denotes literal value
    · obtain ⟨value, denotes⟩ := read
      rw [literalValue_of_denotes denotes] at made
      split at made
      next => cases made
      next above =>
        obtain rfl := Except.error.inj made
        exact .overflow denotes (by omega)
    · rw [literalValue_of_unread read] at made
      obtain rfl := Except.error.inj made
      exact .invalid read
  · intro breaks
    cases breaks with
    | invalid unread => exact literalValue_of_unread unread
    | overflow denotes above => rw [literalValue_of_denotes denotes, if_neg (by omega)]

theorem Breaks.unique {other : LexError} (h : Breaks number literal error)
    (h' : Breaks number literal other) : error = other :=
  Except.error.inj ((literalValue_eq_error_iff.mpr h).symm.trans (literalValue_eq_error_iff.mpr h'))

/-! ## The literals of a text -/

/-- Line `number` of `text` has this literal. -/
def LiteralAt (text : List Char) (number : Nat) (literal : List Char) : Prop :=
  literal ≠ [] ∧ ∃ front line, Text.LineAt text front line ∧
    number = 1 + front.count '\n' ∧ IsCode line literal

section literals
variable {text : List Char} {other : List Char}

theorem mem_literals :
    (number, literal) ∈ literals text ↔ LiteralAt text number literal := by
  simp only [literals, List.mem_filter, List.mem_map, Prod.exists, Prod.mk.injEq, LiteralAt,
    Text.mem_zipIdx_lines, isCode_iff, Bool.not_eq_true', List.isEmpty_eq_false_iff]
  constructor
  · rintro ⟨⟨line, number, ⟨front, at_front, rfl⟩, rfl, code_eq⟩, nonempty⟩
    exact ⟨nonempty, front, line, at_front, rfl, code_eq⟩
  · rintro ⟨nonempty, front, line, at_front, rfl, code_eq⟩
    exact ⟨⟨line, _, ⟨front, at_front, rfl⟩, rfl, code_eq⟩, nonempty⟩

theorem pairwise_literals (text : List Char) :
    (literals text).Pairwise fun entry later => entry.1 < later.1 := by
  have numbered : ((Text.lines text).zipIdx 1).Pairwise fun entry later => entry.2 < later.2 := by
    rw [← List.pairwise_map (f := Prod.snd) (R := (· < ·)), List.zipIdx_map_snd]
    exact List.pairwise_lt_range' 1
  refine List.Pairwise.filter _ ?_
  rw [List.pairwise_map]
  exact numbered

theorem LiteralAt.unique (h : LiteralAt text number literal)
    (h' : LiteralAt text number other) : literal = other := by
  have distinct : ((literals text).map Prod.fst).Nodup :=
    List.pairwise_map.mpr ((pairwise_literals text).imp ne_of_lt)
  have same := List.inj_on_of_nodup_map distinct (mem_literals.mpr h) (mem_literals.mpr h') rfl
  exact congrArg Prod.snd same

end literals

/-! ## Traversals -/

section traversal
variable {α β ε : Type} {f : α → Except ε β} {xs : List α} {ys : List β}

theorem eq_map_of_mapM_ok {g : β → α} (back : ∀ {x y}, f x = .ok y → x = g y)
    (made : xs.mapM f = .ok ys) : xs = ys.map g ∧ ∀ y ∈ ys, f (g y) = .ok y := by
  induction xs generalizing ys with
  | nil =>
    obtain rfl := Except.ok.inj made
    simp
  | cons x xs ih =>
    rw [List.mapM_cons] at made
    cases head : f x with
    | error error => simp [head, bind, Except.bind] at made
    | ok y =>
      cases tail : xs.mapM f with
      | error error => simp [head, tail, bind, Except.bind] at made
      | ok zs =>
        rw [head, tail] at made
        obtain rfl := Except.ok.inj made
        obtain ⟨rfl, rest⟩ := ih tail
        obtain rfl := back head
        exact ⟨rfl, by simpa using ⟨head, rest⟩⟩

theorem exists_of_mapM_error {error : ε} (failed : xs.mapM f = .error error) :
    ∃ before x after, xs = before ++ x :: after ∧ (∀ y ∈ before, ∃ z, f y = .ok z) ∧
      f x = .error error := by
  induction xs with
  | nil => cases failed
  | cons x xs ih =>
    rw [List.mapM_cons] at failed
    cases head : f x with
    | error other =>
      rw [head] at failed
      obtain rfl := Except.error.inj failed
      exact ⟨[], x, xs, rfl, by simp, head⟩
    | ok y =>
      cases tail : xs.mapM f with
      | ok zs => simp [head, tail, bind, Except.bind, pure, Except.pure] at failed
      | error other =>
        rw [head, tail] at failed
        obtain rfl := Except.error.inj failed
        obtain ⟨before, z, after, rfl, passed, here⟩ := ih tail
        exact ⟨x :: before, z, after, rfl, by simpa using ⟨⟨y, head⟩, passed⟩, here⟩

end traversal

/-! ## Tokens -/

/-- The line and the characters of a token. -/
def entry (token : Token) : Nat × List Char :=
  (token.line, token.literal.toList)

theorem token_eq_ok_iff {token : Token} : Source.token number literal = .ok token ↔
    (number, literal) = entry token ∧ Denotes literal token.value.toNat := by
  rw [← literalValue_eq_ok_iff, Source.token]
  cases literalValue number literal with
  | error error => simp [bind, Except.bind]
  | ok value =>
    simp only [bind, Except.bind, pure, Except.pure, Except.ok.injEq, entry, Prod.mk.injEq]
    constructor
    · rintro rfl
      simp
    · rintro ⟨⟨rfl, rfl⟩, rfl⟩
      simp

theorem token_eq_error_iff :
    Source.token number literal = .error error ↔ Breaks number literal error := by
  rw [← literalValue_eq_error_iff, Source.token]
  cases literalValue number literal with
  | error other => simp [bind, Except.bind]
  | ok value => simp [bind, Except.bind, pure, Except.pure]

theorem eq_of_entry_eq {token other : Token} (same : entry token = entry other)
    (value : token.value = other.value) : token = other := by
  obtain ⟨line, literal⟩ := Prod.mk.inj same
  cases token
  cases other
  simp_all [String.toList_inj]

/-! ## Program texts -/

/-- Every literal of the text stands for a byte. -/
def Accepted (text : String) : Prop :=
  ∀ number literal, LiteralAt text.toList number literal → Fits literal

/-- `tokens` are the literals of the text with their values, in line order. -/
structure TokensOf (text : String) (tokens : List Token) : Prop where
  accepted : Accepted text
  ordered : tokens.Pairwise fun token later => token.line < later.line
  mem_iff : ∀ token, token ∈ tokens ↔
    LiteralAt text.toList token.line token.literal.toList ∧
      Denotes token.literal.toList token.value.toNat

/-- `error` is about the first line whose literal does not stand for a byte. -/
def FirstFault (text : String) (error : LexError) : Prop :=
  ∃ number literal, LiteralAt text.toList number literal ∧ Breaks number literal error ∧
    ∀ earlier other, earlier < number → LiteralAt text.toList earlier other → Fits other

variable {text : String} {tokens : List Token} {bytes : List UInt8}

theorem tokensOf_of_ok (made : Source.tokens text = .ok tokens) : TokensOf text tokens := by
  obtain ⟨entries, read⟩ :=
    eq_map_of_mapM_ok (g := entry) (fun made => (token_eq_ok_iff.mp made).1) made
  have denotes (token) (h : token ∈ tokens) :
      Denotes token.literal.toList token.value.toNat := (token_eq_ok_iff.mp (read token h)).2
  refine ⟨?_, ?_, ?_⟩
  · intro number literal here
    rw [← mem_literals, entries] at here
    obtain ⟨token, h, same⟩ := List.mem_map.mp here
    obtain ⟨rfl, rfl⟩ := Prod.mk.inj same
    exact (denotes token h).fits
  · have ordered := pairwise_literals text.toList
    rw [entries, List.pairwise_map] at ordered
    exact ordered
  · intro token
    rw [← mem_literals, entries]
    constructor
    · exact fun h => ⟨List.mem_map_of_mem h, denotes token h⟩
    · rintro ⟨here, value⟩
      obtain ⟨other, h, same⟩ := List.mem_map.mp here
      -- the literal of a token determines its value
      have literal_eq := (Prod.mk.inj same).2
      have value_eq := (denotes other h).unique (literal_eq ▸ value)
      rwa [← eq_of_entry_eq same (UInt8.toNat_inj.mp value_eq)]

theorem TokensOf.unique {others : List Token} (h : TokensOf text tokens)
    (h' : TokensOf text others) : tokens = others := by
  have nodup {tokens : List Token} (h : TokensOf text tokens) : tokens.Nodup :=
    h.ordered.imp fun lt same => absurd lt (by rw [same]; exact lt_irrefl _)
  have perm := (List.perm_ext_iff_of_nodup (nodup h) (nodup h')).mpr fun token => by
    rw [h.mem_iff, h'.mem_iff]
  exact perm.eq_of_pairwise (fun _ _ _ _ lt gt => absurd gt lt.asymm) h.ordered h'.ordered

theorem firstFault_of_error (made : Source.tokens text = .error error) : FirstFault text error := by
  obtain ⟨before, ⟨number, literal⟩, after, split, passed, here⟩ := exists_of_mapM_error made
  have mem : (number, literal) ∈ literals text.toList := by rw [split]; simp
  refine ⟨number, literal, mem_literals.mp mem, token_eq_error_iff.mp here, ?_⟩
  intro earlier other lt there
  have ordered := pairwise_literals text.toList
  rw [← mem_literals, split, List.mem_append, List.mem_cons] at there
  rw [split, List.pairwise_append, List.pairwise_cons] at ordered
  rcases there with there | same | there
  · obtain ⟨token, made⟩ := passed _ there
    exact (token_eq_ok_iff.mp made).2.fits
  · obtain ⟨rfl, -⟩ := Prod.mk.inj same
    exact absurd lt (Nat.lt_irrefl _)
  · exact absurd lt (Nat.lt_asymm (ordered.2.1.1 _ there))

theorem FirstFault.not_accepted (h : FirstFault text error) : ¬ Accepted text := by
  obtain ⟨number, literal, here, breaks, -⟩ := h
  exact fun accepted => breaks.unfit (accepted number literal here)

theorem FirstFault.unique {other : LexError} (h : FirstFault text error)
    (h' : FirstFault text other) : error = other := by
  obtain ⟨number, literal, here, breaks, first⟩ := h
  obtain ⟨number', literal', here', breaks', first'⟩ := h'
  rcases Nat.lt_trichotomy number number' with before | rfl | behind
  · exact absurd (first' _ _ before here) breaks.unfit
  · obtain rfl := here.unique here'
    exact breaks.unique breaks'
  · exact absurd (first _ _ behind here') breaks'.unfit

theorem tokens_eq_ok_iff : Source.tokens text = .ok tokens ↔ TokensOf text tokens := by
  refine ⟨tokensOf_of_ok, fun h => ?_⟩
  cases made : Source.tokens text with
  | ok others => rw [h.unique (tokensOf_of_ok made)]
  | error error => exact absurd h.accepted (firstFault_of_error made).not_accepted

theorem tokens_eq_error_iff : Source.tokens text = .error error ↔ FirstFault text error := by
  refine ⟨firstFault_of_error, fun h => ?_⟩
  cases made : Source.tokens text with
  | ok tokens => exact absurd (tokensOf_of_ok made).accepted h.not_accepted
  | error other => rw [h.unique (firstFault_of_error made)]

theorem program_eq_ok_iff :
    program text = .ok bytes ↔ ∃ tokens, TokensOf text tokens ∧ bytes = tokens.map Token.value := by
  simp only [← tokens_eq_ok_iff, program]
  cases Source.tokens text with
  | error error => simp [bind, Except.bind]
  | ok tokens => simp [bind, Except.bind, pure, Except.pure, eq_comm]

example : (program "0b1000_0010 # LDI R0,5\n\n\t00000000\r\n101").toOption = some [130, 0, 5] := by
  decide +kernel

theorem program_eq_error_iff : program text = .error error ↔ FirstFault text error := by
  rw [← tokens_eq_error_iff, program]
  cases Source.tokens text with
  | error other => simp [bind, Except.bind]
  | ok tokens => simp [bind, Except.bind, pure, Except.pure]

theorem exists_program_iff : (∃ bytes, program text = .ok bytes) ↔ Accepted text := by
  constructor
  · rintro ⟨bytes, made⟩
    obtain ⟨tokens, h, -⟩ := program_eq_ok_iff.mp made
    exact h.accepted
  · intro accepted
    cases made : program text with
    | ok bytes => exact ⟨bytes, rfl⟩
    | error error => exact absurd accepted (program_eq_error_iff.mp made).not_accepted

/-- **Program texts are read by their grammar.** A text is accepted if every
literal in it stands for a byte, and then its bytes are the values of the
literals in line order; the tokens have these values too, with literals and line
numbers. Of any other text the first line whose literal is not one, or is above
255, is reported. -/
theorem program_follows_grammar (text : String) :
    ((∃ bytes, program text = .ok bytes) ↔ Accepted text) ∧
      (∀ bytes, program text = .ok bytes ↔
        ∃ tokens, TokensOf text tokens ∧ bytes = tokens.map Token.value) ∧
      (∀ tokens, Source.tokens text = .ok tokens ↔ TokensOf text tokens) ∧
      (∀ error, program text = .error error ↔ FirstFault text error) ∧
      (∀ error, Source.tokens text = .error error ↔ FirstFault text error) :=
  ⟨exists_program_iff, fun _ => program_eq_ok_iff, fun _ => tokens_eq_ok_iff,
    fun _ => program_eq_error_iff, fun _ => tokens_eq_error_iff⟩

end ByteMachine.Source
