import ByteMachine.Listing
import ByteMachine.Trace

/-!
# Columns of printed lines

The lines of listings and of traces, read back from their texts. Both are words with
blanks between them, and numbers in them are hexadecimal numerals, so a text tells its
columns again (`Listing.Columns.ofText_text`, `TraceLine.ofText_text`).
-/

namespace ByteMachine

/-! ## Words -/

/-- The words of a line. Where blanks follow one another there is an empty word
between them. -/
def words (text : String) : List (List Char) :=
  text.toList.splitOn ' '

/-- A filled word in front of two blanks is the last one before an empty word. -/
theorem takeWhile_words {column : List (List Char)} (nonempty : column ≠ [])
    (filled : ∀ word ∈ column, word ≠ [] ∧ ' ' ∉ word) (rest : List Char) :
    (([' '].intercalate column ++ ' ' :: ' ' :: rest).splitOn ' ').takeWhile (!·.isEmpty) =
      column := by
  induction column with
  | nil => exact absurd rfl nonempty
  | cons word column ih =>
    obtain ⟨some, whole⟩ := filled word List.mem_cons_self
    cases column with
    | nil =>
      have ends : (' ' :: rest).splitOn ' ' = [] :: rest.splitOn ' ' :=
        List.splitOn_append_cons_self_of_not_mem List.not_mem_nil rest
      rw [List.intercalate_singleton, List.splitOn_append_cons_self_of_not_mem whole, ends]
      simp [some]
    | cons next column =>
      have later := ih (List.cons_ne_nil _ _) fun word h => filled word (List.mem_cons_of_mem _ h)
      rw [List.intercalate_cons_cons, List.append_assoc, List.append_assoc, List.singleton_append,
        List.splitOn_append_cons_self_of_not_mem whole, List.takeWhile_cons_of_pos (by simp [some]),
        later]

/-- Two groups of words make one. -/
theorem intercalate_append {first second : List (List Char)} (some : first ≠ [])
    (other : second ≠ []) :
    [' '].intercalate (first ++ second) =
      [' '].intercalate first ++ ' ' :: [' '].intercalate second := by
  induction first with
  | nil => exact absurd rfl some
  | cons word first ih =>
    cases first with
    | nil =>
      obtain ⟨next, second, rfl⟩ := List.exists_cons_of_ne_nil other
      simp
    | cons next first =>
      have rest := ih (List.cons_ne_nil _ _)
      rw [List.cons_append] at rest
      rw [List.cons_append, List.cons_append, List.intercalate_cons_cons, rest,
        List.intercalate_cons_cons]
      simp

/-! ## Numerals -/

namespace Numeral

/-- The hexadecimal digits. -/
def upperDigits : List Char :=
  ['0', '1', '2', '3', '4', '5', '6', '7', '8', '9', 'A', 'B', 'C', 'D', 'E', 'F']

theorem toUpper_digitChar_mem {d : Nat} (h : d < 16) : d.digitChar.toUpper ∈ upperDigits := by
  have table : ∀ d : Fin 16, d.val.digitChar.toUpper ∈ upperDigits := by decide
  exact table ⟨d, h⟩

theorem mem_upperDigits_of_toDigits {n : Nat} {c : Char}
    (h : c ∈ (Nat.toDigits 16 n).map Char.toUpper) : c ∈ upperDigits := by
  induction n using Nat.strongRecOn with
  | ind n ih =>
    rw [Nat.toDigits_eq_if (by decide)] at h
    split at h
    · rename_i small
      obtain rfl := List.mem_singleton.mp h
      exact toUpper_digitChar_mem small
    · rename_i large
      rw [List.map_append, List.mem_append] at h
      rcases h with front | last
      · exact ih (n / 16) (by omega) front
      · obtain rfl := List.mem_singleton.mp last
        exact toUpper_digitChar_mem (Nat.mod_lt n (by decide))

theorem mem_upperDigits {width n : Nat} {c : Char} (h : c ∈ hexDigits width n) :
    c ∈ upperDigits := by
  unfold hexDigits List.leftpad at h
  rcases List.mem_append.mp h with filling | digit
  · rw [List.eq_of_mem_replicate filling]
    decide
  · exact mem_upperDigits_of_toDigits digit

/-- A numeral is part of one word. -/
theorem blank_notMem_hexDigits (width n : Nat) : ' ' ∉ hexDigits width n :=
  fun h => absurd (mem_upperDigits h) (by decide)

theorem colon_notMem_hexDigits (width n : Nat) : ':' ∉ hexDigits width n :=
  fun h => absurd (mem_upperDigits h) (by decide)

theorem hexDigits_ne_dashes (width n : Nat) : hexDigits width n ≠ ['-', '-'] := by
  intro same
  have dash : '-' ∈ hexDigits width n := by rw [same]; exact List.mem_cons_self
  exact absurd (mem_upperDigits dash) (by decide)

/-- The numeral of a byte has just two digits. -/
theorem length_hexDigits_byte (byte : UInt8) : (hexDigits 2 byte.toNat).length = 2 := by
  have short : (Nat.toDigits 16 byte.toNat).length ≤ 2 :=
    (Nat.length_toDigits_le_iff (by decide) (by decide)).mpr byte.toNat_lt
  rw [hexDigits, List.length_leftpad, List.length_map]
  omega

/-- The byte that a numeral stands for. -/
def readByte (word : List Char) : UInt8 :=
  UInt8.ofNat (ofHexDigits word)

theorem readByte_hexDigits (byte : UInt8) : readByte (hexDigits 2 byte.toNat) = byte := by
  rw [readByte, ofHexDigits_hexDigits, UInt8.ofNat_toNat]

end Numeral

open Numeral

theorem toList_hexByte (byte : UInt8) : (hexByte byte).toList = hexDigits 2 byte.toNat :=
  String.toList_ofList

/-! ## Lines of a listing -/

/-- The first two columns of a listing. -/
structure Listing.Columns where
  address : Nat
  bytes : List UInt8
deriving DecidableEq, Repr

/-- The columns that a line shows: its address ends at the colon, and the column of
bytes at the first empty word. -/
def Listing.Columns.ofText (text : String) : Listing.Columns where
  address := ofHexDigits (text.toList.takeWhile (· != ':'))
  bytes := ((words text).tail.takeWhile (!·.isEmpty)).map readByte

namespace Listing

/-- How bytes are written in their column. -/
def byteWords (bytes : List UInt8) : List (List Char) :=
  bytes.map fun byte => hexDigits 2 byte.toNat

theorem map_readByte_byteWords (bytes : List UInt8) : (byteWords bytes).map readByte = bytes := by
  unfold byteWords
  rw [List.map_map]
  exact (List.map_congr_left fun byte _ => readByte_hexDigits byte).trans (List.map_id bytes)

theorem byteWords_filled {bytes : List UInt8} :
    ∀ word ∈ byteWords bytes, word ≠ [] ∧ ' ' ∉ word := by
  intro word h
  obtain ⟨byte, -, rfl⟩ := List.mem_map.mp h
  refine ⟨?_, blank_notMem_hexDigits 2 byte.toNat⟩
  have length := length_hexDigits_byte byte
  intro empty
  rw [empty] at length
  cases length

/-- A byte and the blank behind it take three characters. -/
theorem length_intercalate_byteWords {bytes : List UInt8} (some : bytes ≠ []) :
    ([' '].intercalate (byteWords bytes)).length + 1 = 3 * bytes.length := by
  induction bytes with
  | nil => exact absurd rfl some
  | cons byte bytes ih =>
    have two := length_hexDigits_byte byte
    cases bytes with
    | nil => simp [byteWords, two]
    | cons next bytes =>
      have rest := ih (List.cons_ne_nil _ _)
      simp only [byteWords, List.map_cons, List.intercalate_cons_cons, List.length_append,
        List.length_cons, List.length_nil] at rest ⊢
      omega

theorem Line.toList_text (line : Line) :
    line.text.toList = hexDigits 2 line.address ++ [':'] ++ ' ' ::
      (([' '].intercalate (byteWords line.item.bytes)).rightpad 9 ' ' ++
        ' ' :: line.item.text.toList) := by
  have column : (" ".intercalate (line.item.bytes.map hexByte)).toList =
      [' '].intercalate (byteWords line.item.bytes) := by
    rw [String.toList_intercalate, List.map_map]
    exact congrArg _ (List.map_congr_left fun byte _ => toList_hexByte byte)
  simp only [Line.text, hex, String.toList_append, String.toList_ofList, column]
  simp

/-- Behind a column that is not full, two blanks come before the next one. -/
theorem exists_rightpad_append {column : List Char} (short : column.length < 9)
    (next : List Char) :
    ∃ rest, column.rightpad 9 ' ' ++ ' ' :: next = column ++ ' ' :: ' ' :: rest := by
  obtain ⟨left, eq⟩ : ∃ left, 9 - column.length = left + 1 := ⟨8 - column.length, by omega⟩
  rw [List.rightpad, eq, List.replicate_succ, List.append_assoc, List.cons_append]
  cases left with
  | zero => exact ⟨_, rfl⟩
  | succ left => exact ⟨_, rfl⟩

/-- A line with at most three bytes shows its address and its bytes. -/
theorem Columns.ofText_text {line : Line} (short : line.item.length ≤ 3) :
    Columns.ofText line.text = ⟨line.address, line.item.bytes⟩ := by
  have some : line.item.bytes ≠ [] := List.ne_nil_of_length_pos line.item.length_pos
  have width := length_intercalate_byteWords some
  unfold Item.length at short
  have narrow : ([' '].intercalate (byteWords line.item.bytes)).length < 9 := by omega
  obtain ⟨rest, padded⟩ := exists_rightpad_append narrow line.item.text.toList
  have column : byteWords line.item.bytes ≠ [] := fun none => some (List.map_eq_nil_iff.mp none)
  have front : ' ' ∉ hexDigits 2 line.address ++ [':'] := by
    simp [blank_notMem_hexDigits]
  have address : ∀ c ∈ hexDigits 2 line.address, (c != ':') = true := by
    intro c h
    simpa using ne_of_mem_of_not_mem h (colon_notMem_hexDigits _ _)
  unfold Columns.ofText words
  rw [line.toList_text, padded, Columns.mk.injEq]
  refine ⟨?_, ?_⟩
  · rw [List.append_assoc, List.takeWhile_append_of_pos address, List.singleton_append,
      List.takeWhile_cons_of_neg (by decide), List.append_nil, ofHexDigits_hexDigits]
  · rw [List.splitOn_append_cons_self_of_not_mem front, List.tail_cons,
      takeWhile_words column byteWords_filled, map_readByte_byteWords]

end Listing

/-! ## Trace lines -/

namespace TraceLine

/-- The cell that a word of a trace line shows. -/
def readCell (word : List Char) : Option UInt8 :=
  if word = ['-', '-'] then none else some (readByte word)

/-- The state that a trace line shows: behind the first word the program counter, and
between bars the cells and the registers. -/
def ofText (text : String) : TraceLine where
  pc := ofHexDigits ((words text).getD 1 [])
  cells := Vector.ofFn fun offset => readCell ((words text).getD (3 + offset) [])
  registers := ⟨Vector.ofFn fun register => readByte ((words text).getD (7 + register) [])⟩

/-- The words that a trace line is made of. -/
def toWords (line : TraceLine) : List (List Char) :=
  ["TRACE:".toList, hexDigits 2 line.pc, ['|']] ++
    (line.cells.toList.map (fun cell => (cellText cell).toList) ++
      (['|'] :: line.registers.toList.map fun byte => hexDigits 2 byte.toNat))

theorem readCell_cellText (cell : Option UInt8) : readCell (cellText cell).toList = cell := by
  cases cell with
  | none => rfl
  | some byte =>
    rw [cellText, toList_hexByte, readCell, if_neg (hexDigits_ne_dashes 2 byte.toNat),
      readByte_hexDigits]

theorem blank_notMem_toWords (line : TraceLine) : ∀ word ∈ line.toWords, ' ' ∉ word := by
  have cells (cell : Option UInt8) : ' ' ∉ (cellText cell).toList := by
    cases cell with
    | none => decide
    | some byte =>
      rw [cellText, toList_hexByte]
      exact blank_notMem_hexDigits 2 byte.toNat
  intro word h
  simp only [toWords, List.mem_append, List.mem_cons, List.mem_map, List.not_mem_nil,
    or_false] at h
  rcases h with (rfl | rfl | rfl) | ⟨cell, -, rfl⟩ | rfl | ⟨byte, -, rfl⟩
  · decide
  · exact blank_notMem_hexDigits 2 line.pc
  · decide
  · exact cells cell
  · decide
  · exact blank_notMem_hexDigits 2 byte.toNat

theorem toList_text (line : TraceLine) : line.text.toList = [' '].intercalate line.toWords := by
  have registers : line.registers.toList.map (fun byte => (hexByte byte).toList) =
      line.registers.toList.map fun byte => hexDigits 2 byte.toNat :=
    List.map_congr_left fun byte _ => toList_hexByte byte
  have someCells : line.cells.toList.map (fun cell => (cellText cell).toList) ≠ [] :=
    List.ne_nil_of_length_pos (by simp)
  have someRegisters : line.registers.toList.map (fun byte => hexDigits 2 byte.toNat) ≠ [] :=
    List.ne_nil_of_length_pos (by simp [Registers.toList])
  have bar := intercalate_append (List.cons_ne_nil ['|'] []) someRegisters
  rw [List.singleton_append, List.intercalate_singleton] at bar
  rw [toWords, intercalate_append (List.cons_ne_nil _ _) (List.append_ne_nil_of_left_ne_nil someCells _),
    intercalate_append someCells (List.cons_ne_nil _ _), bar]
  simp only [text, hex, String.toList_append, String.toList_intercalate, String.toList_ofList,
    List.map_map, Function.comp_def, registers]
  simp

theorem words_text (line : TraceLine) : words line.text = line.toWords := by
  rw [words, line.toList_text]
  exact List.splitOn_intercalate ' ' line.blank_notMem_toWords (List.cons_ne_nil _ _)

theorem getD_toWords_cell (line : TraceLine) {i : Nat} (inside : i < 3) :
    line.toWords.getD (3 + i) [] = (cellText line.cells[i]).toList := by
  rw [toWords, List.getD_eq_getElem?_getD, List.getElem?_append_right (Nat.le_add_right 3 i),
    List.getElem?_append_left (by simpa using inside)]
  simp [inside]

theorem getD_toWords_register (line : TraceLine) {i : Nat} (inside : i < 8) :
    line.toWords.getD (7 + i) [] = hexDigits 2 line.registers.values[i].toNat := by
  have place : 7 + i = 3 + (3 + (i + 1)) := by omega
  rw [toWords, List.getD_eq_getElem?_getD, place, List.getElem?_append_right (Nat.le_add_right 3 _),
    List.getElem?_append_right (by simp)]
  simp [Registers.toList, inside]

/-- A trace line shows what it was made of. -/
theorem ofText_text (line : TraceLine) : ofText line.text = line := by
  have cells : (Vector.ofFn fun offset : Fin 3 =>
      readCell (line.toWords.getD (3 + offset) [])) = line.cells := by
    apply Vector.ext
    intro i inside
    rw [Vector.getElem_ofFn, getD_toWords_cell line inside, readCell_cellText]
  have registers : (Vector.ofFn fun register : Fin 8 =>
      readByte (line.toWords.getD (7 + register) [])) = line.registers.values := by
    apply Vector.ext
    intro i inside
    rw [Vector.getElem_ofFn, getD_toWords_register line inside, readByte_hexDigits]
  have pc : ofHexDigits (line.toWords.getD 1 []) = line.pc := ofHexDigits_hexDigits 2 line.pc
  rw [ofText, words_text, pc, cells, registers]

end TraceLine

end ByteMachine
