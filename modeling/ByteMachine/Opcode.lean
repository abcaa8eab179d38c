/-!
# Opcodes

The ten instructions and their encodings. The two top bits of an encoding are
the number of operand bytes that follow it, the next bit marks arithmetic, and
the low four bits tell instructions of one group apart. Only the operand count
is read off the bits; the rest is told by comparing whole bytes.
-/

namespace ByteMachine

inductive Opcode
  | hlt
  | ldi
  | prn
  | push
  | pop
  | add
  | sub
  | mul
  | inc
  | dec
deriving DecidableEq, Repr

/-- The number of operand bytes that `byte` asks for, as an instruction or not. -/
def operandCount (byte : UInt8) : Nat :=
  (byte >>> 6).toNat

namespace Opcode

/-- Every instruction, in the order of listings and tables. -/
def all : List Opcode :=
  [hlt, ldi, prn, push, pop, add, sub, mul, inc, dec]

def encode : Opcode → UInt8
  | hlt => 0b0000_0001
  | ldi => 0b1000_0010
  | prn => 0b0100_0111
  | push => 0b0100_0101
  | pop => 0b0100_0110
  | add => 0b1010_0000
  | sub => 0b1010_0001
  | mul => 0b1010_0010
  | inc => 0b0110_0101
  | dec => 0b0110_0110

/-- What is said of a byte that encodes no instruction. -/
def unknownText : String := "Unknown opcode"

/-- The instruction that a byte encodes, told by a table of its own. -/
def ofByte : UInt8 → Except String Opcode
  | 0b0000_0001 => .ok hlt
  | 0b1000_0010 => .ok ldi
  | 0b0100_0111 => .ok prn
  | 0b0100_0101 => .ok push
  | 0b0100_0110 => .ok pop
  | 0b1010_0000 => .ok add
  | 0b1010_0001 => .ok sub
  | 0b1010_0010 => .ok mul
  | 0b0110_0101 => .ok inc
  | 0b0110_0110 => .ok dec
  | _ => .error unknownText

def decode? (byte : UInt8) : Option Opcode :=
  (ofByte byte).toOption

def mnemonic : Opcode → String
  | hlt => "HLT"
  | ldi => "LDI"
  | prn => "PRN"
  | push => "PUSH"
  | pop => "POP"
  | add => "ADD"
  | sub => "SUB"
  | mul => "MUL"
  | inc => "INC"
  | dec => "DEC"

def ofMnemonic? (name : String) : Option Opcode :=
  all.find? fun opcode => opcode.mnemonic == name

def operandCount (opcode : Opcode) : Nat :=
  ByteMachine.operandCount opcode.encode

/-! ## Encodings and names are one to one

The table of encodings, the table of bytes and the list of all instructions agree. -/

theorem mem_all (opcode : Opcode) : opcode ∈ all := by
  cases opcode <;> decide

theorem ofByte_encode (opcode : Opcode) : ofByte opcode.encode = .ok opcode := by
  cases opcode <;> rfl

section decoding
variable {byte : UInt8} {opcode : Opcode}

theorem ofByte_eq_ok_iff : ofByte byte = .ok opcode ↔ opcode.encode = byte := by
  constructor
  · intro known
    unfold ofByte at known
    split at known <;> cases known <;> rfl
  · rintro rfl
    exact ofByte_encode opcode

theorem eq_unknownText {text : String} (unknown : ofByte byte = .error text) :
    text = unknownText := by
  unfold ofByte at unknown
  split at unknown <;> cases unknown
  rfl

/-- Of every other byte the same is said. -/
theorem ofByte_eq_error_iff {text : String} :
    ofByte byte = .error text ↔ (∀ opcode, encode opcode ≠ byte) ∧ text = unknownText := by
  constructor
  · intro unknown
    refine ⟨?_, eq_unknownText unknown⟩
    rintro opcode rfl
    cases (ofByte_encode opcode).symm.trans unknown
  · rintro ⟨other, rfl⟩
    cases answer : ofByte byte with
    | ok opcode => exact absurd (ofByte_eq_ok_iff.mp answer) (other opcode)
    | error text => rw [eq_unknownText answer]

theorem decode?_encode (opcode : Opcode) : decode? opcode.encode = some opcode := by
  rw [decode?, ofByte_encode]
  rfl

theorem decode?_eq_some_iff : decode? byte = some opcode ↔ opcode.encode = byte := by
  rw [← ofByte_eq_ok_iff, decode?]
  cases ofByte byte <;> simp [Except.toOption]

theorem encode_eq_of_decode? (h : decode? byte = some opcode) : opcode.encode = byte :=
  decode?_eq_some_iff.mp h

theorem decode?_eq_none_iff : decode? byte = none ↔ ∀ opcode, encode opcode ≠ byte := by
  constructor
  · intro unknown
    cases answer : ofByte byte with
    | ok opcode =>
      rw [decode?, answer] at unknown
      cases unknown
    | error text => exact (ofByte_eq_error_iff.mp answer).1
  · intro other
    rw [decode?, ofByte_eq_error_iff.mpr ⟨other, rfl⟩]
    rfl

/-- Looking a byte up among the encodings of all instructions finds what it decodes to. -/
theorem find?_all (byte : UInt8) :
    (all.find? fun opcode => opcode.encode == byte) = decode? byte := by
  cases found : all.find? fun opcode => opcode.encode == byte with
  | some opcode =>
    have same : opcode.encode = byte := by simpa using List.find?_some found
    exact (decode?_eq_some_iff.mpr same).symm
  | none =>
    symm
    rw [decode?_eq_none_iff]
    intro opcode same
    exact List.find?_eq_none.mp found opcode opcode.mem_all (beq_iff_eq.mpr same)

end decoding

theorem encode_injective {a b : Opcode} (h : a.encode = b.encode) : a = b := by
  have decoded := ofByte_encode a
  rw [h, ofByte_encode] at decoded
  exact (Except.ok.inj decoded).symm

theorem ofMnemonic?_mnemonic (opcode : Opcode) : ofMnemonic? opcode.mnemonic = some opcode := by
  cases opcode <;> rfl

theorem operandCount_le_two (opcode : Opcode) : opcode.operandCount ≤ 2 := by
  cases opcode <;> decide

/-- Only the last instruction of a program has no operands. -/
theorem operandCount_pos {opcode : Opcode} (h : opcode ≠ hlt) : 0 < opcode.operandCount := by
  cases opcode with
  | hlt => exact absurd rfl h
  | _ => decide

end Opcode

end ByteMachine
