/-!
# Numerals

Natural numbers as text: decimal without leading zeros, and upper-case
hexadecimal filled up with zeros to a least width. `ofDigitChars_decimalDigits`
and `ofHexDigits_hexDigits` say that a numeral is read back as its number.
-/

namespace ByteMachine.Numeral

/-! ## Decimal -/

/-- The decimal digits of `n`, without leading zeros. -/
def decimalDigits (n : Nat) : List Char :=
  Nat.toDigits 10 n

def decimal (n : Nat) : String :=
  String.ofList (decimalDigits n)

/-! ## Hexadecimal -/

/-- The upper-case hexadecimal digits of `n`, with zeros in front until there
are at least `width` of them. -/
def hexDigits (width n : Nat) : List Char :=
  ((Nat.toDigits 16 n).map Char.toUpper).leftpad width '0'

def hex (width n : Nat) : String :=
  String.ofList (hexDigits width n)

/-- The two hexadecimal digits of a byte. -/
def hexByte (byte : UInt8) : String :=
  hex 2 byte.toNat

/-! ## A numeral is read back as its number -/

theorem isDigit_of_mem_decimalDigits {n : Nat} {c : Char} (h : c ∈ decimalDigits n) :
    c.isDigit = true :=
  Nat.isDigit_of_mem_toDigits (by decide) (by decide) h

theorem notMem_decimalDigits {mark : Char} (other : mark.isDigit = false) (n : Nat) :
    mark ∉ decimalDigits n := by
  intro h
  rw [isDigit_of_mem_decimalDigits h] at other
  cases other

theorem ofDigitChars_decimalDigits (n : Nat) : Nat.ofDigitChars 10 (decimalDigits n) 0 = n :=
  Nat.ofDigitChars_toDigits (by decide) (by decide)

theorem decimalDigits_injective {m n : Nat} (h : decimalDigits m = decimalDigits n) : m = n := by
  have read := congrArg (Nat.ofDigitChars 10 · 0) h
  rwa [ofDigitChars_decimalDigits, ofDigitChars_decimalDigits] at read

/-- The value of an upper-case hexadecimal digit. -/
def digitValue (c : Char) : Nat :=
  if c.isDigit then c.toNat - '0'.toNat else c.toNat - 'A'.toNat + 10

theorem digitValue_toUpper_digitChar {d : Nat} (h : d < 16) :
    digitValue d.digitChar.toUpper = d := by
  have table : ∀ d : Fin 16, digitValue (d.val.digitChar.toUpper) = d.val := by decide
  exact table ⟨d, h⟩

/-- The number that upper-case hexadecimal digits stand for. -/
def ofHexDigits (cs : List Char) : Nat :=
  cs.foldl (fun n c => 16 * n + digitValue c) 0

theorem ofHexDigits_append_singleton (cs : List Char) (c : Char) :
    ofHexDigits (cs ++ [c]) = 16 * ofHexDigits cs + digitValue c := by
  simp [ofHexDigits]

theorem ofHexDigits_toUpper_toDigits (n : Nat) :
    ofHexDigits ((Nat.toDigits 16 n).map Char.toUpper) = n := by
  induction n using Nat.strongRecOn with
  | ind n ih =>
    rw [Nat.toDigits_eq_if (by decide)]
    split
    · rename_i h
      simp [ofHexDigits, digitValue_toUpper_digitChar h]
    · rename_i h
      rw [List.map_append, List.map_singleton, ofHexDigits_append_singleton,
        ih (n / 16) (by omega), digitValue_toUpper_digitChar (Nat.mod_lt n (by decide))]
      omega

theorem ofHexDigits_replicate_append (k : Nat) (cs : List Char) :
    ofHexDigits (List.replicate k '0' ++ cs) = ofHexDigits cs := by
  induction k with
  | zero => rfl
  | succ k ih => simpa [ofHexDigits, List.replicate_succ, digitValue] using ih

theorem ofHexDigits_hexDigits (width n : Nat) : ofHexDigits (hexDigits width n) = n := by
  rw [hexDigits, List.leftpad, ofHexDigits_replicate_append, ofHexDigits_toUpper_toDigits]

end ByteMachine.Numeral
