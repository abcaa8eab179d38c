import ByteMachine.Fault

/-!
# Memory

256 cells of one byte each. A read or write by number checks the address; `get`
and `set` take the address as a byte, which is always in range. Loading copies a
program to the first cells and leaves the cells behind it as they were.
-/

namespace ByteMachine

structure Memory where
  cells : Vector UInt8 256
deriving DecidableEq, Repr

namespace Memory

/-- The number of cells. -/
def capacity : Nat := 256

/-- A memory of zeros. -/
def blank : Memory :=
  ⟨Vector.replicate 256 0⟩

def get (memory : Memory) (address : UInt8) : UInt8 :=
  memory.cells[address.toFin]

def set (memory : Memory) (address value : UInt8) : Memory :=
  ⟨memory.cells.set address.toNat value address.toNat_lt⟩

def read (memory : Memory) (address : Nat) : Except Fault UInt8 :=
  if h : address < 256 then .ok memory.cells[address] else .error (.addressOutOfBounds address)

def write (memory : Memory) (address : Nat) (value : UInt8) : Except Fault Memory :=
  if h : address < 256 then .ok ⟨memory.cells.set address value⟩
  else .error (.addressOutOfBounds address)

/-- The memory with `program` copied to its start. -/
def load (memory : Memory) (program : List UInt8) : Except Fault Memory :=
  if program.length ≤ capacity then
    .ok ⟨Vector.ofFn fun address => program[address.val]?.getD memory.cells[address]⟩
  else .error (.programTooLarge program.length capacity)

/-- The cell at `address`, if there is one. -/
def cell? (memory : Memory) (address : Nat) : Option UInt8 :=
  memory.cells[address]?

/-- All cells from address 0 on. -/
def toList (memory : Memory) : List UInt8 :=
  memory.cells.toList

/-! ## Reads after writes -/

theorem length_toList (memory : Memory) : memory.toList.length = 256 := by
  simp [toList]

theorem get_set (memory : Memory) (a b value : UInt8) :
    (memory.set a value).get b = if a = b then value else memory.get b := by
  simp [get, set, Vector.getElem_set, UInt8.toNat_inj]

theorem get_set_same (memory : Memory) (a value : UInt8) :
    (memory.set a value).get a = value := by
  simp [get_set]

theorem read_toNat (memory : Memory) (a : UInt8) : memory.read a.toNat = .ok (memory.get a) := by
  simp [read, get, a.toNat_lt]

theorem write_toNat (memory : Memory) (a value : UInt8) :
    memory.write a.toNat value = .ok (memory.set a value) := by
  simp [write, set, a.toNat_lt]

theorem read_eq_ok_iff {memory : Memory} {address : Nat} {value : UInt8} :
    memory.read address = .ok value ↔ memory.cell? address = some value := by
  unfold read cell?
  split
  · rename_i inside
    rw [Vector.getElem?_eq_getElem inside, Except.ok.injEq, Option.some.injEq]
  · rename_i outside
    rw [Vector.getElem?_eq_none (Nat.le_of_not_lt outside)]
    constructor <;> intro h <;> cases h

theorem read_eq_error {memory : Memory} {address : Nat} (h : 256 ≤ address) :
    memory.read address = .error (.addressOutOfBounds address) := by
  simp [read, Nat.not_lt.mpr h]

theorem lt_of_cell? {memory : Memory} {address : Nat} {value : UInt8}
    (h : memory.cell? address = some value) : address < 256 :=
  (Vector.getElem?_eq_some_iff.mp h).1

theorem exists_cell? (memory : Memory) {address : Nat} (h : address < 256) :
    ∃ value, memory.cell? address = some value :=
  ⟨memory.cells[address], Vector.getElem?_eq_getElem h⟩

theorem cell?_of_ge {memory : Memory} {address : Nat} (h : 256 ≤ address) :
    memory.cell? address = none :=
  Vector.getElem?_eq_none h

/-- A read looks at its own cell only. -/
theorem read_congr {memory other : Memory} {address : Nat}
    (same : memory.cell? address = other.cell? address) :
    memory.read address = other.read address := by
  by_cases inside : address < 256
  · obtain ⟨value, cell⟩ := memory.exists_cell? inside
    rw [read_eq_ok_iff.mpr cell, read_eq_ok_iff.mpr (same.symm.trans cell)]
  · have outside := Nat.le_of_not_lt inside
    rw [read_eq_error outside, read_eq_error outside]

theorem getElem?_toList (memory : Memory) (address : Nat) :
    memory.toList[address]? = memory.cell? address :=
  Vector.getElem?_toList

/-- The cells from an address on begin with the cell at the address. -/
theorem drop_toList {memory : Memory} {address : Nat} {byte : UInt8}
    (here : memory.cell? address = some byte) :
    memory.toList.drop address = byte :: memory.toList.drop (address + 1) := by
  rw [← getElem?_toList] at here
  obtain ⟨inside, rfl⟩ := List.getElem?_eq_some_iff.mp here
  exact List.drop_eq_getElem_cons inside

theorem cell?_blank {address : Nat} (h : address < 256) : blank.cell? address = some 0 := by
  unfold cell? blank
  rw [Vector.getElem?_replicate, if_pos h]

theorem drop_toList_blank (n : Nat) : blank.toList.drop n = List.replicate (256 - n) 0 := by
  rw [toList, blank, Vector.toList_replicate, List.drop_replicate]

theorem cell?_toNat (memory : Memory) (a : UInt8) :
    memory.cell? a.toNat = some (memory.get a) :=
  read_eq_ok_iff.mp (memory.read_toNat a)

/-- A write changes no other cell. -/
theorem cell?_set_other (memory : Memory) {a : UInt8} {address : Nat} (h : a.toNat ≠ address)
    (value : UInt8) : (memory.set a value).cell? address = memory.cell? address :=
  Vector.getElem?_set_ne a.toNat_lt h

theorem cell?_set_same (memory : Memory) (a value : UInt8) :
    (memory.set a value).cell? a.toNat = some value := by
  rw [cell?_toNat, get_set_same]

/-! ## Cells after a load -/

/-- The program, and behind it the cells as they were. -/
theorem toList_of_load_eq_ok {memory loaded : Memory} {program : List UInt8}
    (h : memory.load program = .ok loaded) :
    loaded.toList = program ++ memory.toList.drop program.length := by
  unfold load at h
  split at h
  · rename_i fits
    rw [← Except.ok.inj h]
    apply List.ext_getElem
    · simp only [toList, Vector.length_toList, List.length_append, List.length_drop]
      unfold capacity at fits
      omega
    · intro i _ _
      by_cases inside : i < program.length
      · simp [toList, inside]
      · have outside := Nat.le_of_not_lt inside
        simp [toList, List.getElem_append_right outside, List.getElem?_eq_none outside,
          Nat.add_sub_cancel' outside]
  · cases h

theorem load_eq_error_iff {memory : Memory} {program : List UInt8} {fault : Fault} :
    memory.load program = .error fault ↔
      capacity < program.length ∧ fault = .programTooLarge program.length capacity := by
  unfold load
  split
  · rename_i fits
    simp [Nat.not_lt.mpr fits]
  · rename_i large
    simp [Nat.lt_of_not_le large, eq_comm]

end Memory

end ByteMachine
