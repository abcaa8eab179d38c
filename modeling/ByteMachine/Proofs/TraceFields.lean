import ByteMachine.Proofs.TracedRun

/-!
# What a trace line shows

The text of a trace line beside the machine that it is taken of. It shows the program
counter, the registers and the cells from the program counter on as far as memory goes,
so machines with equal lines agree in these, and it shows nothing else
(`trace_line_is_faithful`).
-/

namespace ByteMachine

/-! ## Fields -/

namespace TraceLine

/-- Field number `i` of the three that stand for cells. They are the words behind the
first bar. -/
def cellField (text : String) (i : Nat) : List Char :=
  (words text).getD (3 + i) []

theorem text_eq_iff {line other : TraceLine} : line.text = other.text ↔ line = other := by
  constructor
  · intro same
    have read := congrArg ofText same
    rwa [ofText_text, ofText_text] at read
  · exact congrArg text

/-- The dashes are no byte. -/
theorem cellText_eq_dashes_iff {cell : Option UInt8} :
    (cellText cell).toList = ['-', '-'] ↔ cell = none := by
  constructor
  · intro dashes
    have read := readCell_cellText cell
    rw [dashes] at read
    exact read.symm
  · rintro rfl
    rfl

theorem cellField_text (line : TraceLine) {i : Nat} (inside : i < 3) :
    cellField line.text i = (cellText line.cells[i]).toList := by
  rw [cellField, words_text, getD_toWords_cell line inside]

end TraceLine

/-! ## Machines with equal lines -/

namespace Machine

variable {machine other : Machine} {i : Nat}

/-- The machines agree in what a trace line is to show. -/
structure ShownAlike (machine other : Machine) : Prop where
  pc : machine.pc = other.pc
  registers : ∀ register,
    machine.store.registers.get register = other.store.registers.get register
  cells : ∀ i < 3, machine.pc + i < 256 →
    machine.store.memory.read (machine.pc + i) = other.store.memory.read (machine.pc + i)

theorem ShownAlike.cell?_eq (alike : ShownAlike machine other) (shown : i < 3) :
    machine.store.memory.cell? (machine.pc + i) = other.store.memory.cell? (machine.pc + i) := by
  by_cases inside : machine.pc + i < 256
  · obtain ⟨byte, cell⟩ := machine.store.memory.exists_cell? inside
    have read := alike.cells i shown inside
    rw [Memory.read_eq_ok_iff.mpr cell] at read
    rw [cell, Memory.read_eq_ok_iff.mp read.symm]
  · have outside := Nat.le_of_not_lt inside
    rw [Memory.cell?_of_ge outside, Memory.cell?_of_ge outside]

theorem traceLine_eq_iff : machine.traceLine = other.traceLine ↔ ShownAlike machine other := by
  constructor
  · intro same
    have pc : machine.pc = other.pc := congrArg TraceLine.pc same
    have registers : machine.store.registers = other.store.registers :=
      congrArg TraceLine.registers same
    refine ⟨pc, fun register => by rw [registers], ?_⟩
    intro i shown _
    have cells : machine.traceLine.cells[i] = other.traceLine.cells[i] := by rw [same]
    rw [cells_traceLine machine shown, cells_traceLine other shown, ← pc] at cells
    exact Memory.read_congr cells
  · intro alike
    have registers := Registers.eq_of_get_eq alike.registers
    rw [traceLine, traceLine, TraceLine.mk.injEq, ← alike.pc]
    refine ⟨rfl, congrArg Vector.ofFn ?_, registers⟩
    funext offset
    exact alike.cell?_eq offset.isLt

theorem cellField_eq_dashes_iff (machine : Machine) (shown : i < 3) :
    TraceLine.cellField machine.traceLine.text i = ['-', '-'] ↔ 256 ≤ machine.pc + i := by
  rw [TraceLine.cellField_text _ shown, TraceLine.cellText_eq_dashes_iff,
    cells_traceLine machine shown]
  constructor
  · intro none
    apply Nat.le_of_not_lt
    intro inside
    obtain ⟨byte, cell⟩ := machine.store.memory.exists_cell? inside
    rw [none] at cell
    cases cell
  · exact Memory.cell?_of_ge

example :
    ({ pc := 254 } : Machine).traceLine.text =
      "TRACE: FE | 00 00 -- | 00 00 00 00 00 00 00 F4" := by
  decide +kernel

/-- **A trace line is faithful.** Two machines have the same line just if they have the
same program counter, the same registers, and the same cells at the program counter and
at the two addresses behind it, as far as memory goes; their states, whether they are
traced and all other cells have no part in it. Just the cells outside of memory are shown
as dashes. -/
theorem trace_line_is_faithful (machine : Machine) :
    (∀ other : Machine, machine.traceLine.text = other.traceLine.text ↔
      ShownAlike machine other) ∧
    ∀ i < 3, TraceLine.cellField machine.traceLine.text i = ['-', '-'] ↔ 256 ≤ machine.pc + i := by
  constructor
  · intro other
    rw [TraceLine.text_eq_iff, traceLine_eq_iff]
  · intro i shown
    exact cellField_eq_dashes_iff machine shown

/-- At the last cell a machine that is stopped and traced has the line of one that still
runs, though their first cells differ, and the two fields behind that cell are dashes. -/
theorem trace_line_is_faithful_at_last_cell :
    let machine : Machine := { pc := 255 }
    let other : Machine :=
      { pc := 255, store := Store.initial.setCell 0 7, status := .halted, tracing := true }
    machine.traceLine.text = other.traceLine.text ∧
      TraceLine.cellField machine.traceLine.text 1 = ['-', '-'] := by
  intro machine other
  obtain ⟨text_iff, dashes_iff⟩ := trace_line_is_faithful machine
  constructor
  · apply (text_iff other).mpr
    refine ⟨rfl, fun _ => rfl, ?_⟩
    intro i _ inside
    have first : i = 0 := by
      change 255 + i < 256 at inside
      omega
    subst first
    rfl
  · exact (dashes_iff 1 (by decide)).mpr (Nat.le_refl 256)

end Machine

end ByteMachine
