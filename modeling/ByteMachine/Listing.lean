import ByteMachine.Opcode
import ByteMachine.Text.Numeral

/-!
# Listings

Bytes shown as a sequence of items, each an instruction with its operand bytes
or a single data byte. A byte that encodes no instruction is data, and so is one
whose operands are cut off by the end of the bytes. A listing may be limited to
the items that begin before some address; the last of them may reach beyond it.
-/

namespace ByteMachine

open Numeral

inductive Item
  | instruction (opcode : Opcode) (operands : List UInt8)
  | data (byte : UInt8)
deriving DecidableEq, Repr

namespace Item

/-- The item at the start of `bytes`, if there is one. -/
def decode? : (bytes : List UInt8) → Option Item
  | [] => none
  | byte :: rest =>
    match Opcode.decode? byte with
    | some opcode =>
      if opcode.operandCount ≤ rest.length then
        some (instruction opcode (rest.take opcode.operandCount))
      else some (data byte)
    | none => some (data byte)

/-- The bytes that the item was decoded from. -/
def bytes : Item → List UInt8
  | instruction opcode operands => opcode.encode :: operands
  | data byte => [byte]

def length (item : Item) : Nat :=
  item.bytes.length

/-- How an operand is written that names a register, or should. -/
def registerText (operand : UInt8) : String :=
  "R" ++ decimal operand.toNat

def text : Item → String
  | instruction .ldi [register, value] =>
    "LDI " ++ registerText register ++ "," ++ decimal value.toNat
  | instruction opcode [a, b] =>
    opcode.mnemonic ++ " " ++ registerText a ++ "," ++ registerText b
  | instruction opcode [a] => opcode.mnemonic ++ " " ++ registerText a
  | instruction opcode _ => opcode.mnemonic
  | data byte => "DB 0x" ++ hexByte byte

/-! ## The bytes of an item -/

theorem length_pos (item : Item) : 0 < item.length := by
  cases item <;> simp [length, bytes]

/-- Bytes decode to an item unless there are none. -/
theorem exists_decode? {source : List UInt8} (h : source ≠ []) :
    ∃ item, decode? source = some item := by
  cases source with
  | nil => exact absurd rfl h
  | cons byte rest =>
    simp only [decode?]
    split
    · split
      · exact ⟨_, rfl⟩
      · exact ⟨_, rfl⟩
    · exact ⟨_, rfl⟩

/-- Decoding loses nothing: the item's bytes are those it was decoded from. -/
theorem eq_append_of_decode? {source : List UInt8} {item : Item} (h : decode? source = some item) :
    source = item.bytes ++ source.drop item.length := by
  unfold decode? at h
  split at h
  · cases h
  · rename_i byte rest
    split at h
    · rename_i opcode decoded
      have encoded := Opcode.encode_eq_of_decode? decoded
      split at h
      · rename_i fits
        cases h
        simp [bytes, length, encoded, Nat.min_eq_left fits]
      · cases h
        rfl
    · cases h
      rfl

theorem getElem?_of_decode? {source : List UInt8} {item : Item} (h : decode? source = some item)
    {i : Nat} (inside : i < item.length) : source[i]? = item.bytes[i]? := by
  rw [eq_append_of_decode? h]
  exact List.getElem?_append_left inside

/-- An instruction is listed with as many operands as it has. -/
theorem length_operands {source : List UInt8} {opcode : Opcode} {operands : List UInt8}
    (h : decode? source = some (instruction opcode operands)) :
    operands.length = opcode.operandCount := by
  unfold decode? at h
  split at h
  · cases h
  · split at h
    · split at h
      · rename_i fits
        cases h
        exact List.length_take_of_le fits
      · cases h
    · cases h

theorem length_of_decode? {source : List UInt8} {opcode : Opcode} {operands : List UInt8}
    (h : decode? source = some (instruction opcode operands)) :
    (instruction opcode operands).length = opcode.operandCount + 1 := by
  rw [length, bytes, List.length_cons, length_operands h]

/-- What follows an instruction does not matter to it. -/
theorem decode?_instruction {opcode : Opcode} {operands : List UInt8}
    (whole : operands.length = opcode.operandCount) (rest : List UInt8) :
    decode? ((instruction opcode operands).bytes ++ rest) = some (instruction opcode operands) := by
  have fits : opcode.operandCount ≤ (operands ++ rest).length := by
    rw [List.length_append, whole]
    exact Nat.le_add_right _ _
  unfold decode? bytes
  simp only [List.cons_append, Opcode.decode?_encode]
  rw [if_pos fits, ← whole, List.take_left]

end Item

/-! ## Single addresses

Outside of the bytes there is no item; it is shown as two question marks and
counts for one byte. -/

def itemAt? (bytes : List UInt8) (address : Nat) : Option Item :=
  Item.decode? (bytes.drop address)

def Item.textOf : Option Item → String
  | some item => item.text
  | none => "??"

def Item.lengthOf : Option Item → Nat
  | some item => item.length
  | none => 1

/-- Text and length of what stands at `address`. -/
def disassembleAt (bytes : List UInt8) (address : Nat) : String × Nat :=
  let item := itemAt? bytes address
  (Item.textOf item, Item.lengthOf item)

/-! ## Whole listings -/

namespace Listing

/-- An item with its address. -/
structure Line where
  address : Nat
  item : Item
deriving DecidableEq, Repr

/-- The column of bytes is as wide as the three bytes of the longest instruction. -/
def Line.text (line : Line) : String :=
  let column := " ".intercalate (line.item.bytes.map hexByte)
  hex 2 line.address ++ ": " ++ String.ofList (column.toList.rightpad 9 ' ') ++ " "
    ++ line.item.text

end Listing

/-- The items of `bytes` that begin before `limit`, where `bytes` begins at
`address`. -/
def listingFrom (address limit : Nat) (bytes : List UInt8) : List Listing.Line :=
  if address < limit then
    match Item.decode? bytes with
    | some item =>
      ⟨address, item⟩ :: listingFrom (address + item.length) limit (bytes.drop item.length)
    | none => []
  else []
termination_by limit - address
decreasing_by
  have := item.length_pos
  omega

/-- The items of `bytes` that begin in its first `limit` bytes. -/
def listing (bytes : List UInt8) (limit : Nat) : List Listing.Line :=
  listingFrom 0 limit bytes

theorem listingFrom_of_lt {address limit : Nat} (inside : address < limit) {bytes : List UInt8}
    {item : Item} (decoded : Item.decode? bytes = some item) :
    listingFrom address limit bytes =
      ⟨address, item⟩ :: listingFrom (address + item.length) limit (bytes.drop item.length) := by
  rw [listingFrom, if_pos inside, decoded]

theorem listingFrom_of_ge {address limit : Nat} (outside : limit ≤ address) (bytes : List UInt8) :
    listingFrom address limit bytes = [] := by
  rw [listingFrom, if_neg (Nat.not_lt.mpr outside)]

def disassemble (bytes : List UInt8) (limit : Nat) : List String :=
  (listing bytes limit).map Listing.Line.text

end ByteMachine
