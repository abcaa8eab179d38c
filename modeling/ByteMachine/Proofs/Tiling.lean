import Mathlib.Data.List.Chain
import ByteMachine.Proofs.Columns

/-!
# Listings tile their bytes

The bytes that a listing shows, read back from its lines. Every line begins where the
one before ends, so that no byte is lost or shown twice, and a listing that is limited
to fewer bytes consists of the first lines of the longer one (`disassemble_tiles`).
-/

namespace ByteMachine

/-! ## Items in their bytes -/

namespace Item

variable {source : List UInt8} {item : Item}

theorem eq_nil_of_decode?_eq_none (missing : decode? source = none) : source = [] := by
  cases source with
  | nil => rfl
  | cons byte rest =>
    obtain ⟨item, found⟩ := exists_decode? (List.cons_ne_nil byte rest)
    rw [missing] at found
    cases found

theorem bytes_eq_take (decoded : decode? source = some item) :
    item.bytes = source.take item.length := by
  have whole := congrArg (List.take item.length) (eq_append_of_decode? decoded)
  rw [length, List.take_left] at whole
  exact whole.symm

theorem length_le (decoded : decode? source = some item) : item.length ≤ source.length := by
  have whole := congrArg List.length (eq_append_of_decode? decoded)
  rw [List.length_append] at whole
  unfold length
  omega

theorem length_le_three (decoded : decode? source = some item) : item.length ≤ 3 := by
  cases item with
  | instruction opcode operands =>
    have count := length_operands decoded
    have most := opcode.operandCount_le_two
    rw [length, bytes, List.length_cons]
    omega
  | data byte => exact Nat.le_of_ble_eq_true rfl

end Item

namespace Listing

variable {address limit : Nat} {bytes : List UInt8} {line : Line}

/-! ## Lines from an address on -/

theorem address_of_head {lines : List Line}
    (h : listingFrom address limit bytes = line :: lines) : line.address = address := by
  rw [listingFrom] at h
  split at h
  · split at h
    · cases h
      rfl
    · cases h
  · cases h

/-- A line shows what is found at its address. -/
theorem mem_listingFrom (shown : line ∈ listingFrom address limit bytes) :
    ∃ offset, line.address = address + offset ∧ line.address < limit ∧
      itemAt? bytes offset = some line.item := by
  fun_induction listingFrom address limit bytes with
  | case1 address bytes inside item decoded ih =>
    rcases List.mem_cons.mp shown with rfl | later
    · exact ⟨0, rfl, inside, decoded⟩
    · obtain ⟨offset, place, before, found⟩ := ih later
      refine ⟨item.length + offset, by omega, before, ?_⟩
      rw [itemAt?, ← List.drop_drop]
      exact found
  | case2 => cases shown
  | case3 => cases shown

theorem isChain_listingFrom (address limit : Nat) (bytes : List UInt8) :
    (listingFrom address limit bytes).IsChain fun line next =>
      next.address = line.address + line.item.length := by
  fun_induction listingFrom address limit bytes with
  | case1 address bytes inside item decoded ih =>
    cases rest : listingFrom (address + item.length) limit (bytes.drop item.length) with
    | nil => exact List.isChain_singleton _
    | cons next lines =>
      rw [rest] at ih
      exact List.isChain_cons_cons.mpr ⟨address_of_head rest, ih⟩
  | case2 => exact List.isChain_nil
  | case3 => exact List.isChain_nil

/-- Every line takes a byte, and begins before the limit. -/
theorem length_listingFrom_le (address limit : Nat) (bytes : List UInt8) :
    (listingFrom address limit bytes).length ≤ min (limit - address) bytes.length := by
  fun_induction listingFrom address limit bytes with
  | case1 address bytes inside item decoded ih =>
    have some := item.length_pos
    have whole := Item.length_le decoded
    rw [List.length_drop] at ih
    rw [List.length_cons]
    omega
  | case2 => exact Nat.zero_le _
  | case3 => exact Nat.zero_le _

/-- The bytes shown are the first ones. The last line may go two bytes beyond the limit. -/
theorem flatMap_listingFrom (address limit : Nat) (bytes : List UInt8) :
    ∃ count, (listingFrom address limit bytes).flatMap (·.item.bytes) = bytes.take count ∧
      min (limit - address) bytes.length ≤ count ∧
      count ≤ min (limit - address + 2) bytes.length ∧ (limit ≤ address → count = 0) := by
  fun_induction listingFrom address limit bytes with
  | case1 address bytes inside item decoded ih =>
    obtain ⟨count, joined, least, most, none⟩ := ih
    have some := item.length_pos
    have short := Item.length_le_three decoded
    have whole := Item.length_le decoded
    rw [List.length_drop] at least most
    refine ⟨item.length + count, ?_, by omega, by omega, by omega⟩
    rw [List.flatMap_cons, joined, List.take_add, Item.bytes_eq_take decoded]
  | case2 address bytes inside missing =>
    obtain rfl := Item.eq_nil_of_decode?_eq_none missing
    exact ⟨0, rfl, Nat.min_le_right _ _, Nat.zero_le _, fun _ => rfl⟩
  | case3 address bytes outside =>
    exact ⟨0, rfl, by omega, Nat.zero_le _, fun _ => rfl⟩

/-- A lower limit leaves out the lines from there on, and changes no other. -/
theorem listingFrom_eq_filter {lower : Nat} (le : lower ≤ limit) (address : Nat)
    (bytes : List UInt8) :
    listingFrom address lower bytes =
      (listingFrom address limit bytes).filter fun line => line.address < lower := by
  fun_induction listingFrom address limit bytes with
  | case1 address bytes inside item decoded ih =>
    rcases Nat.lt_or_ge address lower with kept | dropped
    · rw [listingFrom_of_lt kept decoded, ih, List.filter_cons_of_pos (by simpa using kept)]
    · have later : ∀ line ∈ listingFrom (address + item.length) limit (bytes.drop item.length),
          ¬ decide (line.address < lower) = true := by
        intro line shown
        obtain ⟨offset, place, -⟩ := mem_listingFrom shown
        rw [decide_eq_true_eq]
        omega
      rw [listingFrom_of_ge dropped, List.filter_cons_of_neg (by simpa using dropped),
        List.filter_eq_nil_iff.mpr later]
  | case2 address bytes inside missing =>
    rw [listingFrom, missing, List.filter_nil]
    exact ite_self []
  | case3 address bytes outside =>
    have beyond : lower ≤ address := by omega
    rw [listingFrom_of_ge beyond, List.filter_nil]

/-! ## Lines read back -/

/-- The columns that a line is made with. -/
def Line.columns (line : Line) : Columns where
  address := line.address
  bytes := line.item.bytes

theorem itemAt?_of_mem (shown : line ∈ listing bytes limit) :
    line.address < limit ∧ itemAt? bytes line.address = some line.item := by
  obtain ⟨offset, place, inside, found⟩ := mem_listingFrom shown
  rw [Nat.zero_add] at place
  exact ⟨inside, place ▸ found⟩

theorem columns_of_mem (shown : line ∈ listing bytes limit) :
    Columns.ofText line.text = line.columns :=
  Columns.ofText_text (Item.length_le_three (itemAt?_of_mem shown).2)

theorem map_ofText_disassemble (bytes : List UInt8) (limit : Nat) :
    (disassemble bytes limit).map Columns.ofText = (listing bytes limit).map Line.columns := by
  rw [disassemble, List.map_map]
  exact List.map_congr_left fun line shown => columns_of_mem shown

theorem disassemble_eq_filter {lower : Nat} (le : lower ≤ limit) (bytes : List UInt8) :
    disassemble bytes lower =
      (disassemble bytes limit).filter fun text => (Columns.ofText text).address < lower := by
  have same : ∀ line ∈ listing bytes limit,
      decide (line.address < lower) = decide ((Columns.ofText line.text).address < lower) := by
    intro line shown
    rw [columns_of_mem shown]
    rfl
  rw [disassemble, disassemble, List.filter_map, listing, listingFrom_eq_filter le]
  exact congrArg _ (List.filter_congr same)

/-! ## Tilings -/

/-- `lines` show `bytes` from address 0 on, without gaps, up to where `stop` or more
bytes are shown. What a line shows is the slice that the item at its address takes. -/
structure Tiles (lines : List Columns) (bytes : List UInt8) (stop : Nat) : Prop where
  few : lines.length ≤ stop
  first : ∀ line ∈ lines.head?, line.address = 0
  next : lines.IsChain fun line next => next.address = line.address + line.bytes.length
  size : ∀ line ∈ lines, 1 ≤ line.bytes.length ∧ line.bytes.length ≤ 3
  inside : ∀ line ∈ lines, line.address < stop
  slice : ∀ line ∈ lines, line.address + (disassembleAt bytes line.address).2 ≤ bytes.length ∧
    line.bytes = (bytes.drop line.address).take (disassembleAt bytes line.address).2
  joined : ∃ count, lines.flatMap (·.bytes) = bytes.take count ∧
    stop ≤ count ∧ count ≤ min (stop + 2) bytes.length ∧ (stop = 0 → count = 0)

/-- A line is inside the bytes, as far as it goes. -/
theorem end_le_of_mem (shown : line ∈ listing bytes limit) :
    line.address + line.item.length ≤ bytes.length := by
  have whole := Item.length_le (itemAt?_of_mem shown).2
  have some := line.item.length_pos
  rw [List.length_drop] at whole
  omega

theorem disassembleAt_of_mem (shown : line ∈ listing bytes limit) :
    disassembleAt bytes line.address = (line.item.text, line.item.length) := by
  rw [disassembleAt, (itemAt?_of_mem shown).2]
  rfl

theorem tiles_columns (bytes : List UInt8) (limit : Nat) :
    Tiles ((listing bytes limit).map Line.columns) bytes (min limit bytes.length) where
  few := by
    rw [List.length_map]
    exact length_listingFrom_le 0 limit bytes
  first := by
    intro _ head
    rw [List.head?_map, Option.mem_def, Option.map_eq_some_iff] at head
    obtain ⟨line, head, rfl⟩ := head
    obtain ⟨lines, eq⟩ := List.head?_eq_some_iff.mp head
    exact address_of_head eq
  next := (List.isChain_map Line.columns).mpr (isChain_listingFrom 0 limit bytes)
  size := by
    intro _ mem
    obtain ⟨line, shown, rfl⟩ := List.mem_map.mp mem
    exact ⟨line.item.length_pos, Item.length_le_three (itemAt?_of_mem shown).2⟩
  inside := by
    intro _ mem
    obtain ⟨line, shown, rfl⟩ := List.mem_map.mp mem
    have before := (itemAt?_of_mem shown).1
    have whole := end_le_of_mem shown
    have some := line.item.length_pos
    have within : line.address < bytes.length := by omega
    exact Nat.lt_min.mpr ⟨before, within⟩
  slice := by
    intro _ mem
    obtain ⟨line, shown, rfl⟩ := List.mem_map.mp mem
    rw [Line.columns, disassembleAt_of_mem shown]
    exact ⟨end_le_of_mem shown, Item.bytes_eq_take (itemAt?_of_mem shown).2⟩
  joined := by
    obtain ⟨count, joined, least, most, none⟩ := flatMap_listingFrom 0 limit bytes
    refine ⟨count, ?_, by omega, by omega, by omega⟩
    rw [List.flatMap_map]
    exact joined

/-- **Listings tile their bytes.** The lines of a listing, read back from their texts,
show the bytes one after another, all of them if there are no more bytes than the limit.
The listing with a lower limit is made of the lines that begin before it. -/
theorem disassemble_tiles (bytes : List UInt8) (limit : Nat) :
    Tiles ((disassemble bytes limit).map Columns.ofText) bytes (min limit bytes.length) ∧
    (bytes.length ≤ limit →
      ((disassemble bytes limit).map Columns.ofText).flatMap (·.bytes) = bytes) ∧
    ∀ lower ≤ limit, disassemble bytes lower =
      (disassemble bytes limit).filter fun text => (Columns.ofText text).address < lower := by
  have tiles : Tiles ((disassemble bytes limit).map Columns.ofText) bytes
      (min limit bytes.length) := by
    rw [map_ofText_disassemble]
    exact tiles_columns bytes limit
  refine ⟨tiles, ?_, ?_⟩
  · intro all
    obtain ⟨count, joined, least, -⟩ := tiles.joined
    rw [Nat.min_eq_right all] at least
    rw [joined, List.take_of_length_le least]
  · intro lower le
    exact disassemble_eq_filter le bytes

/-- A cut off instruction is shown as data, and one that goes on beyond the limit is
shown as a whole. -/
theorem disassemble_tiles_cut_off :
    ((disassemble [0x82, 0x00, 0x05, 0x45] 4).map Columns.ofText).flatMap (·.bytes) =
      [0x82, 0x00, 0x05, 0x45] ∧
    disassemble [0x82, 0x00, 0x05, 0x45] 2 =
      (disassemble [0x82, 0x00, 0x05, 0x45] 4).filter
        fun text => (Columns.ofText text).address < 2 := by
  obtain ⟨-, all, lower⟩ := disassemble_tiles [0x82, 0x00, 0x05, 0x45] 4
  exact ⟨all (by decide), lower 2 (by decide)⟩

example :
    disassemble [0x82, 0x00, 0x05, 0x45, 0x00, 0x82] 6 =
      ["00: 82 00 05  LDI R0,5", "03: 45 00     PUSH R0", "05: 82        DB 0x82"] := by
  decide +kernel

example :
    (disassemble [0x82, 0x00, 0x05, 0x45] 2).map Columns.ofText = [⟨0, [0x82, 0x00, 0x05]⟩] := by
  decide +kernel

end Listing

end ByteMachine
