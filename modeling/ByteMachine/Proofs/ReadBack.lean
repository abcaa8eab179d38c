import Mathlib.Algebra.Group.Nat.Defs
import ByteMachine.Proofs.ItemTexts
import ByteMachine.Proofs.Tiling

/-!
# Items read back

The text of an item tells the item: its first word is the name of an instruction, whose
operands are the numbers behind it, or the mark of a data byte (`Item.ofText_text`). So the
texts of a listing, without its columns of addresses and bytes, still tell all the bytes
(`disassembly_unambiguous`).
-/

namespace ByteMachine

open Numeral

/-! ## Items -/

namespace Item

variable {source : List UInt8} {item : Item} {opcode : Opcode} {operands : List UInt8}

/-- The item that a text shows. A data byte stands behind five characters. -/
def ofText (text : String) : Item :=
  match Opcode.ofMnemonic? (Phrase.ofText text).word with
  | some opcode => instruction opcode ((Phrase.ofText text).numbers.map UInt8.ofNat)
  | none => data (readByte (text.toList.drop 5))

theorem ofText_instruction (whole : operands.length = opcode.operandCount) :
    ofText (instruction opcode operands).text = instruction opcode operands := by
  have read : (operands.map UInt8.toNat).map UInt8.ofNat = operands := by
    rw [List.map_map]
    exact (List.map_congr_left fun _ _ => UInt8.ofNat_toNat).trans (List.map_id operands)
  unfold ofText
  rw [Phrase.ofText_instruction whole]
  dsimp only
  rw [Opcode.ofMnemonic?_mnemonic, read]

theorem ofText_data (byte : UInt8) : ofText (data byte).text = data byte := by
  have mark : Opcode.ofMnemonic? "DB" = none := by decide
  have digits : (data byte).text.toList.drop 5 = hexDigits 2 byte.toNat := by
    simp [text, toList_hexByte]
  unfold ofText
  rw [Phrase.word_data, mark, digits, readByte_hexDigits]

/-- The text of what was decoded tells it. -/
theorem ofText_text (decoded : decode? source = some item) : ofText item.text = item := by
  cases item with
  | instruction opcode operands => exact ofText_instruction (length_operands decoded)
  | data byte => exact ofText_data byte

/-- Nothing that was decoded is shown like the lack of it. -/
theorem text_ne_marks (decoded : decode? source = some item) : item.text ≠ "??" := by
  intro same
  have word : (Phrase.ofText item.text).word = "??" := by
    rw [same]
    decide
  cases item with
  | instruction opcode operands =>
    rw [Phrase.ofText_instruction (length_operands decoded)] at word
    exact (mnemonic_ne_marks opcode).2 word
  | data byte =>
    rw [Phrase.word_data] at word
    exact absurd word (by decide)

end Item

/-! ## Single addresses -/

variable {bytes other : List UInt8} {address place : Nat}

/-- The sums that are formed to show what stands at `address`. Nothing is added up unless
an instruction is found there. -/
inductive DisassemblySum (bytes : List UInt8) (address : Nat) : (sum : Nat) → Prop
  /-- The length of the instruction. -/
  | length {opcode : Opcode} (here : bytes[address]? = some opcode.encode) :
      DisassemblySum bytes address (opcode.operandCount + 1)
  /-- The address of its first operand, in the bytes or not. -/
  | operands {opcode : Opcode} (here : bytes[address]? = some opcode.encode) :
      DisassemblySum bytes address (address + 1)
  /-- The address behind its last operand, in the bytes or not. -/
  | behind {opcode : Opcode} (here : bytes[address]? = some opcode.encode) :
      DisassemblySum bytes address (address + (opcode.operandCount + 1))

theorem DisassemblySum.le {sum : Nat} (forms : DisassemblySum bytes address sum) :
    sum ≤ bytes.length + 2 := by
  cases forms with
  | length here | operands here | behind here =>
    rename_i opcode
    have inside := (List.getElem?_eq_some_iff.mp here).1
    have few := opcode.operandCount_le_two
    omega

theorem disassembleAt_of_ge (outside : bytes.length ≤ address) :
    disassembleAt bytes address = ("??", 1) := by
  unfold disassembleAt itemAt?
  rw [List.drop_of_length_le outside]
  rfl

theorem exists_disassembleAt (inside : address < bytes.length) :
    ∃ item, Item.decode? (bytes.drop address) = some item ∧
      disassembleAt bytes address = (item.text, item.length) := by
  have some : bytes.drop address ≠ [] := by
    intro none
    have := List.drop_eq_nil_iff.mp none
    omega
  obtain ⟨item, decoded⟩ := Item.exists_decode? some
  refine ⟨item, decoded, ?_⟩
  unfold disassembleAt itemAt?
  rw [decoded]
  rfl

/-- What is shown of an address is in the bytes, if the address is, and all that is added
up for it fits in 64 bits if the length of the bytes fits in 63. -/
structure ShownSafely (bytes : List UInt8) (address : Nat) : Prop where
  outside_iff : disassembleAt bytes address = ("??", 1) ↔ bytes.length ≤ address
  inside : address < bytes.length → (disassembleAt bytes address).1 ≠ "??" ∧
    address + (disassembleAt bytes address).2 ≤ bytes.length
  sums : ∀ sum, DisassemblySum bytes address sum →
    sum ≤ bytes.length + 2 ∧ (bytes.length < 2 ^ 63 → sum < 2 ^ 64)

theorem shownSafely (bytes : List UInt8) (address : Nat) : ShownSafely bytes address := by
  have inside (within : address < bytes.length) : (disassembleAt bytes address).1 ≠ "??" ∧
      address + (disassembleAt bytes address).2 ≤ bytes.length := by
    obtain ⟨item, decoded, shown⟩ := exists_disassembleAt within
    have whole := Item.length_le decoded
    rw [List.length_drop] at whole
    rw [shown]
    refine ⟨Item.text_ne_marks decoded, ?_⟩
    dsimp only
    omega
  refine ⟨⟨?_, disassembleAt_of_ge⟩, inside, ?_⟩
  · intro marks
    by_contra within
    exact (inside (Nat.lt_of_not_le within)).1 (congrArg Prod.fst marks)
  · intro sum forms
    have small := forms.le
    exact ⟨small, fun _ => by omega⟩

/-- The covered bytes of what stands at `address`. -/
def coveredBytes (bytes : List UInt8) (address : Nat) : List UInt8 :=
  (bytes.drop address).take (disassembleAt bytes address).2

/-- The same text shows the same bytes. -/
theorem coveredBytes_eq_of_text_eq (within : address < bytes.length) (inside : place < other.length)
    (same : (disassembleAt bytes address).1 = (disassembleAt other place).1) :
    (disassembleAt bytes address).2 = (disassembleAt other place).2 ∧
      coveredBytes bytes address = coveredBytes other place := by
  obtain ⟨item, decoded, shown⟩ := exists_disassembleAt within
  obtain ⟨item', decoded', shown'⟩ := exists_disassembleAt inside
  unfold coveredBytes
  rw [shown, shown'] at same ⊢
  have items : item = item' := by
    have read := congrArg Item.ofText same
    rwa [Item.ofText_text decoded, Item.ofText_text decoded'] at read
  refine ⟨congrArg Item.length items, ?_⟩
  dsimp only
  rw [← Item.bytes_eq_take decoded, ← Item.bytes_eq_take decoded', items]

/-! ## Whole listings -/

namespace Listing

variable {line : Line} {limit : Nat}

/-- The last column of a line of a listing. It begins behind the colon, a blank, the nine
characters of the column of bytes, and another blank. -/
def itemText (text : String) : String :=
  String.ofList ((text.toList.dropWhile (· != ':')).drop 12)

theorem itemText_text (short : line.item.length ≤ 3) : itemText line.text = line.item.text := by
  have some : line.item.bytes ≠ [] := List.ne_nil_of_length_pos line.item.length_pos
  have width := length_intercalate_byteWords some
  unfold Item.length at short
  have nine : (([' '].intercalate (byteWords line.item.bytes)).rightpad 9 ' ').length = 9 := by
    rw [List.length_rightpad]
    omega
  have address : ∀ c ∈ hexDigits 2 line.address, (c != ':') = true := by
    intro c h
    simpa using ne_of_mem_of_not_mem h (colon_notMem_hexDigits _ _)
  have behind : line.text.toList.dropWhile (· != ':') =
      ':' :: ' ' :: (([' '].intercalate (byteWords line.item.bytes)).rightpad 9 ' ' ++
        ' ' :: line.item.text.toList) := by
    rw [line.toList_text, List.append_assoc, List.dropWhile_append_of_pos address,
      List.singleton_append, List.dropWhile_cons_of_neg (by decide)]
  have last : (line.text.toList.dropWhile (· != ':')).drop 12 = line.item.text.toList := by
    rw [behind, List.drop_succ_cons, List.drop_succ_cons, List.drop_append, nine,
      List.drop_of_length_le (Nat.le_of_eq nine |>.trans (by decide))]
    rfl
  rw [itemText, last, String.ofList_toList]

/-- The items of a listing, read from the last columns of its lines. -/
theorem map_ofText_itemText (bytes : List UInt8) (limit : Nat) :
    ((disassemble bytes limit).map itemText).map Item.ofText =
      (listing bytes limit).map Line.item := by
  rw [disassemble, List.map_map, List.map_map]
  refine List.map_congr_left fun line shown => ?_
  have decoded := (itemAt?_of_mem shown).2
  dsimp only [Function.comp_apply]
  rw [itemText_text (Item.length_le_three decoded), Item.ofText_text decoded]

/-- A listing that is not limited shows all bytes. -/
theorem flatMap_listing (bytes : List UInt8) :
    ((listing bytes bytes.length).map Line.item).flatMap Item.bytes = bytes := by
  obtain ⟨count, joined, least, -⟩ := flatMap_listingFrom 0 bytes.length bytes
  rw [List.flatMap_map]
  refine joined.trans (List.take_of_length_le ?_)
  omega

/-- The same texts list the same bytes. -/
theorem eq_of_itemTexts_eq
    (same : (disassemble bytes bytes.length).map itemText =
      (disassemble other other.length).map itemText) : bytes = other := by
  have items := congrArg (List.map Item.ofText) same
  rw [map_ofText_itemText, map_ofText_itemText] at items
  have joined := congrArg (List.flatMap Item.bytes) items
  rwa [flatMap_listing, flatMap_listing] at joined

end Listing

/-- **Disassembly is safe and unambiguous.** At whatever address: two question marks stand
for an address outside of the bytes and for nothing else, what is shown of an address inside
goes no further than the bytes, and no sum that is formed for it is large. Two texts that are
the same show the same number of bytes and the same bytes, so that two lists of bytes whose
listings have the same texts of items are the same. -/
theorem disassembly_unambiguous :
    (∀ bytes address, ShownSafely bytes address) ∧
    (∀ bytes other address place, address < bytes.length → place < other.length →
      (disassembleAt bytes address).1 = (disassembleAt other place).1 →
      (disassembleAt bytes address).2 = (disassembleAt other place).2 ∧
        coveredBytes bytes address = coveredBytes other place) ∧
    ∀ bytes other, (disassemble bytes bytes.length).map Listing.itemText =
      (disassemble other other.length).map Listing.itemText → bytes = other := by
  refine ⟨shownSafely, ?_, ?_⟩
  · intro bytes other address place within inside same
    exact coveredBytes_eq_of_text_eq within inside same
  · intro bytes other same
    exact Listing.eq_of_itemTexts_eq same

/-- An ADD at two places, an LDI that is cut off, and a program that is found in memory by
its listing. -/
theorem disassembly_unambiguous_add_ldi :
    coveredBytes [0xA0, 0x00, 0x01] 0 = coveredBytes [0x01, 0xA0, 0x00, 0x01] 1 ∧
    (disassembleAt [0x82, 0x05] 0).2 ≤ 2 ∧ disassembleAt [0x82, 0x05] 2 = ("??", 1) ∧
    (∀ sum, DisassemblySum [0x82, 0x05] 0 sum → sum < 2 ^ 64) ∧
    (Machine.initial.load [0x82, 0x00, 0x05] .unlimited).machine.store.memory.toList.take 3 =
      [0x82, 0x00, 0x05] := by
  obtain ⟨safe, covered, listed⟩ := disassembly_unambiguous
  refine ⟨?_, ?_, ?_, ?_, ?_⟩
  · exact (covered _ _ 0 1 (by decide) (by decide) (by decide +kernel)).2
  · have within := ((safe [0x82, 0x05] 0).inside (by decide)).2
    rwa [Nat.zero_add] at within
  · exact (safe [0x82, 0x05] 2).outside_iff.mpr (by decide)
  · intro sum forms
    exact ((safe [0x82, 0x05] 0).sums sum forms).2 (by decide)
  · exact listed _ _ (by decide +kernel)

end ByteMachine
