import Mathlib.Data.List.Induction
import ByteMachine.Memory

/-!
# The last writer of a cell

What a read gives after any sequence of writes and loads, those that are refused among
them. A write covers its own cell, and a load the first cells, one for each byte; an
update that is refused covers none. A cell holds the byte of the last update that covers
it, or zero if there is none (`memory_keeps_last`).
-/

namespace ByteMachine

/-- One member of a list is the last of its sort, unless none is of that sort. -/
theorem exists_last_or_forall_not {α : Type} (sort : α → Prop) (members : List α) :
    (∃ before last later, members = before ++ last :: later ∧ sort last ∧
      ∀ other ∈ later, ¬ sort other) ∨ ∀ member ∈ members, ¬ sort member := by
  induction members using List.reverseRecOn with
  | nil => exact .inr nofun
  | append_singleton members member ih =>
    by_cases belongs : sort member
    · exact .inl ⟨members, member, [], rfl, belongs, nofun⟩
    · rcases ih with ⟨before, last, later, split, found, others⟩ | others
      · refine .inl ⟨before, last, later ++ [member], ?_, found, ?_⟩
        · rw [split, List.append_assoc, List.cons_append]
        · intro other h
          rcases List.mem_append.mp h with earlier | new
          · exact others other earlier
          · rwa [List.mem_singleton.mp new]
      · refine .inr fun other h => ?_
        rcases List.mem_append.mp h with earlier | new
        · exact others other earlier
        · rwa [List.mem_singleton.mp new]

namespace Memory

/-! ## Updates -/

/-- A call that is to change memory. -/
inductive Update
  | write (address : Nat) (value : UInt8)
  | load (program : List UInt8)
deriving DecidableEq, Repr

namespace Update

/-- The memory that the update makes, or the fault that it is refused with. -/
def make (memory : Memory) : Update → Except Fault Memory
  | write address value => memory.write address value
  | load program => memory.load program

/-- The update gives `value` to the cell at `address`. -/
inductive Gives : Update → (address : Nat) → (value : UInt8) → Prop
  | write {address : Nat} {value : UInt8} (inside : address < 256) :
      Gives (.write address value) address value
  | load {program : List UInt8} {address : Nat} {value : UInt8} (fits : program.length ≤ 256)
      (byte : program[address]? = some value) : Gives (.load program) address value

def Covers (update : Update) (address : Nat) : Prop :=
  ∃ value, update.Gives address value

/-- What an update is refused with. The memory has no say in it. -/
inductive Refused : Update → Fault → Prop
  | write {address : Nat} {value : UInt8} (outside : 256 ≤ address) :
      Refused (.write address value) (.addressOutOfBounds address)
  | load {program : List UInt8} (large : 256 < program.length) :
      Refused (.load program) (.programTooLarge program.length 256)

variable {memory : Memory} {update : Update} {address : Nat} {value : UInt8} {fault : Fault}

theorem covers_write_iff {target : Nat} :
    (write target value).Covers address ↔ target < 256 ∧ target = address := by
  constructor
  · rintro ⟨_, gives⟩
    cases gives with
    | write inside => exact ⟨inside, rfl⟩
  · rintro ⟨inside, rfl⟩
    exact ⟨value, .write inside⟩

theorem covers_load_iff {program : List UInt8} :
    (load program).Covers address ↔ program.length ≤ 256 ∧ address < program.length := by
  constructor
  · rintro ⟨_, gives⟩
    cases gives with
    | load fits byte => exact ⟨fits, (List.getElem?_eq_some_iff.mp byte).1⟩
  · rintro ⟨fits, inside⟩
    exact ⟨_, .load fits (List.getElem?_eq_getElem inside)⟩

theorem Refused.not_covers (refused : update.Refused fault) (address : Nat) :
    ¬ update.Covers address := by
  cases refused with
  | write outside =>
    rw [covers_write_iff]
    omega
  | load large =>
    rw [covers_load_iff]
    omega

theorem make_eq_error_iff : update.make memory = .error fault ↔ update.Refused fault := by
  cases update with
  | write target value =>
    constructor
    · intro failed
      rw [make, Memory.write] at failed
      split at failed
      · cases failed
      · rename_i outside
        cases failed
        exact .write (Nat.le_of_not_lt outside)
    · intro refused
      cases refused with
      | write outside => rw [make, Memory.write, dif_neg (Nat.not_lt.mpr outside)]
  | load program =>
    rw [make, load_eq_error_iff]
    constructor
    · rintro ⟨large, rfl⟩
      exact .load large
    · intro refused
      cases refused with
      | load large => exact ⟨large, rfl⟩

end Update

/-! ## One update -/

section update
variable {memory after : Memory} {update : Update} {address : Nat} {value : UInt8} {fault : Fault}

/-- The memory after `update` was tried. One that is refused leaves it as it was. -/
def tried (memory : Memory) (update : Update) : Memory :=
  match update.make memory with
  | .ok after => after
  | .error _ => memory

theorem tried_of_ok (made : update.make memory = .ok after) : memory.tried update = after := by
  rw [tried, made]

theorem tried_of_refused (refused : update.Refused fault) : memory.tried update = memory := by
  rw [tried, Update.make_eq_error_iff.mpr refused]

theorem cell?_of_load_eq_ok {program : List UInt8} (loaded : memory.load program = .ok after) :
    after.cell? address =
      if address < program.length then program[address]? else memory.cell? address := by
  rw [← getElem?_toList, toList_of_load_eq_ok loaded]
  split
  · rename_i inside
    exact List.getElem?_append_left inside
  · rename_i outside
    have behind := Nat.le_of_not_lt outside
    rw [List.getElem?_append_right behind, List.getElem?_drop, Nat.add_sub_cancel' behind,
      getElem?_toList]

/-- A covered cell holds what it was given. -/
theorem read_tried_of_gives (gives : update.Gives address value) :
    (memory.tried update).read address = .ok value := by
  cases made : update.make memory with
  | error fault =>
    have refused := Update.make_eq_error_iff.mp made
    exact absurd ⟨value, gives⟩ (refused.not_covers address)
  | ok after =>
    rw [tried_of_ok made, read_eq_ok_iff]
    cases gives with
    | write inside =>
      rw [Update.make, Memory.write, dif_pos inside] at made
      cases made
      exact Vector.getElem?_set_self inside
    | load fits byte =>
      rw [cell?_of_load_eq_ok made, if_pos (List.getElem?_eq_some_iff.mp byte).1, byte]

/-- Every other cell is as it was. -/
theorem read_tried_of_not_covers (spared : ¬ update.Covers address) :
    (memory.tried update).read address = memory.read address := by
  cases made : update.make memory with
  | error fault => rw [tried_of_refused (Update.make_eq_error_iff.mp made)]
  | ok after =>
    rw [tried_of_ok made]
    apply read_congr
    cases update with
    | write target value =>
      rw [Update.covers_write_iff] at spared
      rw [Update.make, Memory.write] at made
      split at made
      · rename_i inside
        have other : target ≠ address := fun same => spared ⟨inside, same⟩
        cases made
        exact Vector.getElem?_set_ne inside other
      · cases made
    | load program =>
      have fits : program.length ≤ 256 := by
        apply Nat.le_of_not_lt
        intro large
        rw [Update.make_eq_error_iff.mpr (.load large)] at made
        cases made
      have behind : ¬ address < program.length :=
        fun inside => spared (Update.covers_load_iff.mpr ⟨fits, inside⟩)
      rw [cell?_of_load_eq_ok made, if_neg behind]

end update

/-! ## Sequences of updates -/

/-- What updates make of a blank memory, one after the other. -/
def afterAll (updates : List Update) : Memory :=
  updates.foldl tried blank

/-- The cell at `address` got `value` from the last update that covers it, or holds the
zero that it began with. -/
inductive LastGiven (updates : List Update) (address : Nat) : (value : UInt8) → Prop
  | given (before later : List Update) {update : Update} {value : UInt8}
      (split : updates = before ++ update :: later) (gives : update.Gives address value)
      (last : ∀ other ∈ later, ¬ other.Covers address) : LastGiven updates address value
  | never (spared : ∀ update ∈ updates, ¬ update.Covers address) : LastGiven updates address 0

variable {updates : List Update} {address : Nat} {value : UInt8}

theorem afterAll_append_singleton (updates : List Update) (update : Update) :
    afterAll (updates ++ [update]) = (afterAll updates).tried update := by
  rw [afterAll, List.foldl_append]
  rfl

theorem read_foldl_of_spared (memory : Memory)
    (spared : ∀ update ∈ updates, ¬ update.Covers address) :
    (updates.foldl tried memory).read address = memory.read address := by
  induction updates generalizing memory with
  | nil => rfl
  | cons update updates ih =>
    rw [List.foldl_cons, ih _ fun later h => spared later (List.mem_cons_of_mem _ h)]
    exact read_tried_of_not_covers (spared update List.mem_cons_self)

/-- In every sequence one update is the last to cover a cell, or none covers it. -/
theorem exists_lastGiven (updates : List Update) (address : Nat) :
    ∃ value, LastGiven updates address value := by
  rcases exists_last_or_forall_not (fun update : Update => update.Covers address) updates with
    ⟨before, update, later, split, ⟨value, gives⟩, last⟩ | spared
  · exact ⟨value, .given before later split gives last⟩
  · exact ⟨0, .never spared⟩

theorem LastGiven.read_eq (given : LastGiven updates address value) (inside : address < 256) :
    (afterAll updates).read address = .ok value := by
  cases given with
  | given _ _ split gives last =>
    rw [afterAll, split, List.foldl_append, List.foldl_cons, read_foldl_of_spared _ last]
    exact read_tried_of_gives gives
  | never spared =>
    rw [afterAll, read_foldl_of_spared _ spared]
    exact read_eq_ok_iff.mpr (cell?_blank inside)

theorem read_afterAll_iff (inside : address < 256) :
    (afterAll updates).read address = .ok value ↔ LastGiven updates address value := by
  constructor
  · intro read
    obtain ⟨last, given⟩ := exists_lastGiven updates address
    rw [given.read_eq inside] at read
    rwa [← Except.ok.inj read]
  · intro given
    exact given.read_eq inside

theorem read_eq_error_iff {memory : Memory} {fault : Fault} :
    memory.read address = .error fault ↔ 256 ≤ address ∧ fault = .addressOutOfBounds address := by
  constructor
  · intro failed
    have outside : 256 ≤ address := by
      apply Nat.le_of_not_lt
      intro inside
      obtain ⟨value, cell⟩ := memory.exists_cell? inside
      rw [read_eq_ok_iff.mpr cell] at failed
      cases failed
    rw [read_eq_error outside] at failed
    exact ⟨outside, (Except.error.inj failed).symm⟩
  · rintro ⟨outside, rfl⟩
    exact read_eq_error outside

/-- What is known of a memory after `updates`, and of one more update that is tried. -/
structure KeepsLast (updates : List Update) : Prop where
  missed_iff : ∀ address fault, (afterAll updates).read address = .error fault ↔
    256 ≤ address ∧ fault = .addressOutOfBounds address
  read_iff : ∀ address value, address < 256 →
    ((afterAll updates).read address = .ok value ↔ LastGiven updates address value)
  refused_iff : ∀ (update : Update) fault, update.make (afterAll updates) = .error fault ↔
    update.Refused fault
  refused_keeps : ∀ (update : Update) fault, update.Refused fault →
    afterAll (updates ++ [update]) = afterAll updates ∧ ∀ address, ¬ update.Covers address
  tail_kept : ∀ (program : List UInt8) address, program.length ≤ address →
    (afterAll (updates ++ [.load program])).read address = (afterAll updates).read address

/-- **A cell holds what it was given last.** After any writes and loads, whatever their
addresses and sizes, a read fails just outside of memory, and else gives the byte of the
last update that covers its cell, or zero. Updates that are refused change nothing, and a
load leaves the cells behind its program as they were. -/
theorem memory_keeps_last (updates : List Update) : KeepsLast updates where
  missed_iff _ _ := read_eq_error_iff
  read_iff _ _ inside := read_afterAll_iff inside
  refused_iff _ _ := Update.make_eq_error_iff
  refused_keeps update fault refused := by
    rw [afterAll_append_singleton]
    exact ⟨tried_of_refused refused, refused.not_covers⟩
  tail_kept program address behind := by
    rw [afterAll_append_singleton]
    apply read_tried_of_not_covers
    rw [Update.covers_load_iff]
    omega

/-- A write over a first program, a write far outside, and a shorter program. -/
theorem memory_keeps_last_behind_short_load :
    (afterAll [.load [1, 2, 3], .write 2 9, .write 0xFFFFFFFFFFFFFFFF 7, .load [4]]).read 2 =
      .ok 9 := by
  refine ((memory_keeps_last _).read_iff 2 9 (by decide)).mpr ?_
  refine .given [.load [1, 2, 3]] [.write 0xFFFFFFFFFFFFFFFF 7, .load [4]] rfl ?_ ?_
  · exact .write (by decide)
  · intro other later
    simp only [List.mem_cons, List.not_mem_nil, or_false] at later
    rcases later with rfl | rfl
    · rw [Update.covers_write_iff]
      omega
    · rw [Update.covers_load_iff]
      simp

end Memory

end ByteMachine
