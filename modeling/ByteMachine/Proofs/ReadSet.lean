import Mathlib.Control.Monad.Basic
import ByteMachine.Proofs.History

/-!
# The cells that a run depends on

A run depends on the registers and on the cells whose first contents it reads: the
instructions that it fetches and the cells that it pops, as far as the program did
not store there itself before. Two machines that agree in this run in step with each
other (`run_depends_on_reads`), whatever else is in their memories.
-/

namespace ByteMachine

/-! ## What an instruction depends on -/

/-- The memories have the same cells at the addresses in `on`. -/
def Memory.AgreesOn (on : Nat → Prop) (memory other : Memory) : Prop :=
  ∀ address, on address → other.cell? address = memory.cell? address

namespace Memory.AgreesOn

variable {on : Nat → Prop} {memory other : Memory}

theorem mono {fewer : Nat → Prop} (agrees : memory.AgreesOn on other)
    (known : ∀ address, fewer address → on address) : memory.AgreesOn fewer other :=
  fun address chosen => agrees address (known address chosen)

theorem get_eq (agrees : memory.AgreesOn on other) {a : UInt8} (known : on a.toNat) :
    other.get a = memory.get a := by
  have same := agrees a.toNat known
  rw [cell?_toNat, cell?_toNat] at same
  exact Option.some.inj same

/-- Where both memories are written, they agree after that. -/
theorem set (agrees : memory.AgreesOn on other) (a value : UInt8) :
    (memory.set a value).AgreesOn (fun address => on address ∨ a.toNat = address)
      (other.set a value) := by
  intro address known
  by_cases written : a.toNat = address
  · subst written
    rw [cell?_set_same, cell?_set_same]
  · rw [cell?_set_other _ written, cell?_set_other _ written]
    exact agrees address (known.resolve_right written)

end Memory.AgreesOn

/-- Two effects that print and leave the same, with memories that agree on `on`. -/
structure Effect.AgreesOn (on : Nat → Prop) (effect other : Effect) : Prop where
  line : other.line = effect.line
  flow : other.flow = effect.flow
  registers : other.store.registers = effect.store.registers
  memory : effect.store.memory.AgreesOn on other.store.memory

theorem Effect.AgreesOn.print_eq {on : Nat → Prop} {effect other : Effect}
    (agrees : effect.AgreesOn on other) (sink : Sink) : other.print sink = effect.print sink := by
  unfold Effect.print
  rw [agrees.line]

namespace Row

variable {on : Nat → Prop} {store other : Store} {a b : UInt8} {opcode : Opcode}

/-- Whether an instruction is refused depends on the registers alone, and in the
case of POP on the top of the stack. -/
theorem error_of_agreesOn (registers : other.registers = store.registers)
    (top : opcode = .pop → ∀ r, Names a r → on store.sp.toNat)
    (memory : store.memory.AgreesOn on other.memory) {fault : Fault}
    (row : Row store a b opcode (.error fault)) : Row other a b opcode (.error fault) := by
  have sp : other.sp = store.sp := congrArg (Registers.get · .sp) registers
  cases row with
  | badSecond two bad => exact .badSecond two bad
  | badFirst known second bad => exact .badFirst known second bad
  | pushAtEnd names ends => exact .pushAtEnd names (sp.trans ends)
  | popAtEnd names notSp ends => exact .popAtEnd names notSp (sp.trans ends)
  | popSpAtEnd names ends =>
    rw [← sp]
    refine .popSpAtEnd names ?_
    rw [sp, memory.get_eq (top rfl _ names)]
    exact ends

/-- The same of the effect, where memories agree besides on what a PUSH stores. -/
theorem exists_agreesOn (registers : other.registers = store.registers)
    (top : opcode = .pop → ∀ r, Names a r → on store.sp.toNat)
    (memory : store.memory.AgreesOn on other.memory) {effect : Effect}
    (row : Row store a b opcode (.ok effect)) :
    ∃ effect' : Effect, Row other a b opcode (.ok effect') ∧
      effect.AgreesOn (fun address => on address ∨
        opcode = .push ∧ (store.sp - 1).toNat = address) effect' := by
  obtain ⟨registers', memory'⟩ := other
  obtain ⟨_, before⟩ := store
  dsimp only at registers memory
  subst registers
  have kept (other : opcode ≠ .push) : before.AgreesOn (fun address => on address ∨
      opcode = .push ∧ (Store.sp ⟨registers', before⟩ - 1).toNat = address) memory' :=
    memory.mono fun address known => known.resolve_right fun stored => other stored.1
  cases row with
  | hlt => exact ⟨_, .hlt, rfl, rfl, rfl, kept nofun⟩
  | ldi names => exact ⟨_, .ldi names, rfl, rfl, rfl, kept nofun⟩
  | prn names => exact ⟨_, .prn names, rfl, rfl, rfl, kept nofun⟩
  | push names notSp room =>
    refine ⟨_, .push names notSp room, rfl, rfl, rfl, ?_⟩
    exact (memory.set _ _).mono fun address known => known.imp_right And.right
  | pushSp names room =>
    refine ⟨_, .pushSp names room, rfl, rfl, rfl, ?_⟩
    exact (memory.set _ _).mono fun address known => known.imp_right And.right
  | pop names notSp room =>
    refine ⟨_, .pop names notSp room, rfl, rfl, ?_, kept nofun⟩
    exact congrArg (fun value => (registers'.set _ value).set .sp _)
      (memory.get_eq (top rfl _ names))
  | popSp names room =>
    have same := memory.get_eq (top rfl _ names)
    refine ⟨_, .popSp names (same ▸ room), rfl, rfl, ?_, kept nofun⟩
    exact congrArg (fun value => registers'.set .sp (value + 1)) same
  | ofTwo two first second value =>
    refine ⟨_, .ofTwo two first second value, rfl, rfl, rfl, kept ?_⟩
    rintro rfl
    cases two
  | ofOne one first value =>
    refine ⟨_, .ofOne one first value, rfl, rfl, rfl, kept ?_⟩
    rintro rfl
    cases one

end Row

/-! ## What a step reads and stores -/

namespace Machine

/-- A running machine reads the cell at `address` in its next step. Operands are read
in order, and there is nothing to be read behind memory. -/
inductive Reads (machine : Machine) : (address : Nat) → Prop
  | opcode (inside : machine.pc < 256) : Reads machine machine.pc
  | operand {opcode : Opcode} {offset : Nat}
      (here : machine.store.memory.cell? machine.pc = some opcode.encode)
      (asked : offset ≤ opcode.operandCount) (inside : machine.pc + offset < 256) :
      Reads machine (machine.pc + offset)
  | top {a b : UInt8} {r : Register} (holds : machine.Holds .pop a b) (names : Names a r) :
      Reads machine machine.store.sp.toNat

/-- An instruction reads its own cells, and POP the top of the stack besides. -/
theorem Reads.of_opcode {machine : Machine} {address : Nat} {opcode : Opcode}
    (read : machine.Reads address)
    (here : machine.store.memory.cell? machine.pc = some opcode.encode) :
    address ≤ machine.pc + opcode.operandCount ∨
      opcode = .pop ∧ address = machine.store.sp.toNat := by
  cases read with
  | opcode => exact .inl (Nat.le_add_right _ _)
  | operand same asked =>
    obtain rfl := Opcode.encode_injective (Option.some.inj (here.symm.trans same))
    exact .inl (Nat.add_le_add_left asked _)
  | top holds =>
    have pop := Opcode.encode_injective (Option.some.inj (here.symm.trans holds.here))
    exact .inr ⟨pop, rfl⟩

/-- The next step is a PUSH that stores into the cell at `address`. A PUSH that does
not fail goes on. -/
def StoresTo (machine : Machine) (sink : Sink) (address : Nat) : Prop :=
  machine.PushesTo address ∧ (machine.step sink).result = .ok .running

/-- The machines are at the same point, with the same registers, and have the same
cells at the addresses in `on`. -/
structure AgreesOn (on : Nat → Prop) (machine other : Machine) : Prop where
  pc : other.pc = machine.pc
  status : other.status = machine.status
  registers : other.store.registers = machine.store.registers
  memory : machine.store.memory.AgreesOn on other.store.memory

end Machine

/-- The outcomes agree in all but the cells at addresses that are not in `on`. -/
structure Outcome.AgreesOn {α : Type} (on : Nat → Prop) (outcome other : Outcome α) : Prop where
  machine : outcome.machine.AgreesOn on other.machine
  sink : other.sink = outcome.sink
  result : other.result = outcome.result

/-! ## Steps of machines that agree -/

namespace Machine

variable {on : Nat → Prop} {machine other : Machine} {sink : Sink}

namespace AgreesOn

theorem mono {fewer : Nat → Prop} (agrees : machine.AgreesOn on other)
    (known : ∀ address, fewer address → on address) : machine.AgreesOn fewer other :=
  ⟨agrees.pc, agrees.status, agrees.registers, agrees.memory.mono known⟩

/-- What is stored at an address that does not count makes no difference. -/
theorem of_setCell (machine : Machine) {address : UInt8} (free : ¬ on address.toNat)
    (value : UInt8) :
    machine.AgreesOn on { machine with store := machine.store.setCell address value } := by
  refine ⟨rfl, rfl, rfl, fun other known => Memory.cell?_set_other _ ?_ value⟩
  rintro rfl
  exact free known

theorem stop (agrees : machine.AgreesOn on other) :
    AgreesOn on { machine with status := .faulted } { other with status := .faulted } :=
  ⟨agrees.pc, rfl, agrees.registers, agrees.memory⟩

variable (agrees : machine.AgreesOn on other) (reads : ∀ address, machine.Reads address → on address)
include agrees reads

theorem cell?_pc (inside : machine.pc < 256) :
    other.store.memory.cell? other.pc = machine.store.memory.cell? machine.pc := by
  rw [agrees.pc]
  exact agrees.memory _ (reads _ (.opcode inside))

theorem holdsOperand {opcode : Opcode} {offset : Nat} {value : UInt8}
    (here : machine.store.memory.cell? machine.pc = some opcode.encode)
    (holds : machine.HoldsOperand opcode offset value) :
    other.HoldsOperand opcode offset value := by
  unfold HoldsOperand at holds ⊢
  split at holds
  · rename_i asked
    have inside := Memory.lt_of_cell? holds
    rw [if_pos asked, agrees.pc, agrees.memory _ (reads _ (.operand here asked inside))]
    exact holds
  · rename_i missing
    rw [if_neg missing]
    exact holds

theorem holds {opcode : Opcode} {a b : UInt8} (holds : machine.Holds opcode a b) :
    other.Holds opcode a b where
  here := (agrees.cell?_pc reads (Memory.lt_of_cell? holds.here)).trans holds.here
  first := agrees.holdsOperand reads holds.here holds.first
  second := agrees.holdsOperand reads holds.here holds.second

/-- The same instruction is fetched, or the same is missing. -/
theorem fetch_eq : other.fetch = machine.fetch := by
  rcases machine.fetch_cases with outside | ⟨byte, here, unknown⟩ | ⟨opcode, here, cut⟩ |
    ⟨opcode, a, b, whole⟩
  · rw [fetch_of_ge outside, fetch_of_ge (agrees.pc ▸ outside), agrees.pc]
  · have same := (agrees.cell?_pc reads (Memory.lt_of_cell? here)).trans here
    rw [fetch_of_unknown here unknown, fetch_of_unknown same unknown, agrees.pc]
  · have same := (agrees.cell?_pc reads (Memory.lt_of_cell? here)).trans here
    rw [fetch_of_cut_off here cut, fetch_of_cut_off same (agrees.pc ▸ cut)]
  · rw [fetch_of_holds whole, fetch_of_holds (agrees.holds reads whole)]

theorem effect_eq_error {opcode : Opcode} {a b : UInt8} {fault : Fault}
    (holds : machine.Holds opcode a b)
    (refusal : opcode.effect a b machine.store = .error fault) :
    opcode.effect a b other.store = .error fault := by
  refine row_iff.mp ((row_iff.mpr refusal).error_of_agreesOn agrees.registers ?_ agrees.memory)
  rintro rfl r names
  exact reads _ (.top holds names)

theorem exists_effect {opcode : Opcode} {a b : UInt8} {effect : Effect}
    (holds : machine.Holds opcode a b)
    (effect_eq : opcode.effect a b machine.store = .ok effect) :
    ∃ effect', opcode.effect a b other.store = .ok effect' ∧
      effect.AgreesOn (fun address => on address ∨
        opcode = .push ∧ (machine.store.sp - 1).toNat = address) effect' := by
  obtain ⟨effect', row, alike⟩ :=
    (row_iff.mpr effect_eq).exists_agreesOn agrees.registers (by
      rintro rfl r names
      exact reads _ (.top holds names)) agrees.memory
  exact ⟨effect', row_iff.mp row, alike⟩

/-- Machines that agree on what the next step reads take it alike, and agree besides
on the cell that it stores into. -/
theorem step (running : machine.status = .running) (sink : Sink) :
    (machine.step sink).AgreesOn (fun address => on address ∨ machine.StoresTo sink address)
      (other.step sink) := by
  have runningToo : other.status = .running := agrees.status.trans running
  -- only a step that goes on stores anything
  have stopped (stops : (machine.step sink).result ≠ .ok .running) (address : Nat) :
      on address ∨ machine.StoresTo sink address → on address :=
    fun known => known.resolve_right fun stores => stops stores.2
  have case := step_case running sink
  generalize stepped : machine.step sink = outcome at case stopped ⊢
  cases case with
  | unfetched missing =>
    rw [step_of_fetch_error runningToo ((agrees.fetch_eq reads).trans missing)]
    exact ⟨agrees.stop.mono (stopped nofun), rfl, rfl⟩
  | refused holds refusal =>
    rw [step_of_refused runningToo (agrees.holds reads holds)
      (agrees.effect_eq_error reads holds refusal)]
    exact ⟨agrees.stop.mono (stopped nofun), rfl, rfl⟩
  | unprinted holds effect_eq printing =>
    obtain ⟨effect', same, alike⟩ := agrees.exists_effect reads holds effect_eq
    rw [← alike.print_eq] at printing ⊢
    rw [step_of_unprinted runningToo (agrees.holds reads holds) same printing]
    exact ⟨agrees.stop.mono (stopped nofun), rfl, rfl⟩
  | next holds effect_eq flow printing =>
    obtain ⟨effect', same, alike⟩ := agrees.exists_effect reads holds effect_eq
    rw [← alike.print_eq] at printing ⊢
    rw [step_of_next runningToo (agrees.holds reads holds) same (alike.flow.trans flow) printing]
    refine ⟨⟨by rw [agrees.pc], agrees.status, alike.registers, ?_⟩, rfl, rfl⟩
    refine alike.memory.mono fun address known => known.imp_right ?_
    rintro ⟨⟨⟨a', b', push⟩, below⟩, -⟩
    exact ⟨(holds.unique push).1, below⟩
  | halt holds effect_eq flow printing =>
    obtain ⟨effect', same, alike⟩ := agrees.exists_effect reads holds effect_eq
    rw [← alike.print_eq] at printing ⊢
    rw [step_of_halt runningToo (agrees.holds reads holds) same (alike.flow.trans flow) printing]
    refine ⟨⟨agrees.pc, rfl, alike.registers, ?_⟩, rfl, rfl⟩
    exact alike.memory.mono fun address known => .inl (stopped nofun address known)

end AgreesOn

/-! ## Runs of machines that agree -/

/-- One of the first `n` steps of a run stores into the cell at `address`. -/
def StoresBefore (machine : Machine) (sink : Sink) (n address : Nat) : Prop :=
  ∃ i < n, (machine.moment sink i).1.StoresTo (machine.moment sink i).2 address

/-- A run reads the first content of the cell at `address`: one of its steps reads the
cell, and none before that stored there. -/
def ReadsInitially (machine : Machine) (sink : Sink) (address : Nat) : Prop :=
  ∃ n, machine.Reaches sink n ∧ (machine.moment sink n).1.Reads address ∧
    ¬ machine.StoresBefore sink n address

theorem Reaches.storesTo {n address : Nat} (reaches : machine.Reaches sink (n + 1))
    (pushes : (machine.moment sink n).1.PushesTo address) :
    (machine.moment sink n).1.StoresTo (machine.moment sink n).2 address :=
  ⟨pushes, reaches.last⟩

theorem storesBefore_succ_iff {n address : Nat} :
    machine.StoresBefore sink (n + 1) address ↔
      machine.StoresBefore sink n address ∨
        (machine.moment sink n).1.StoresTo (machine.moment sink n).2 address := by
  constructor
  · rintro ⟨i, before, stores⟩
    rcases Nat.lt_succ_iff_lt_or_eq.mp before with earlier | rfl
    · exact .inl ⟨i, earlier, stores⟩
    · exact .inr stores
  · rintro (⟨i, before, stores⟩ | stores)
    · exact ⟨i, Nat.lt_succ_of_lt before, stores⟩
    · exact ⟨n, Nat.lt_succ_self n, stores⟩

/-- The machines have the same cell at `address` after `n` steps: they had it at the
beginning, or a step stored there. -/
def SharedAfter (machine other : Machine) (sink : Sink) (n address : Nat) : Prop :=
  other.store.memory.cell? address = machine.store.memory.cell? address ∨
    machine.StoresBefore sink n address

theorem sharedAfter_succ {n address : Nat}
    (known : machine.SharedAfter other sink (n + 1) address) :
    machine.SharedAfter other sink n address ∨
      (machine.moment sink n).1.StoresTo (machine.moment sink n).2 address := by
  rcases known with same | stored
  · exact .inl (.inl same)
  · exact (storesBefore_succ_iff.mp stored).imp_left .inr

/-- Two runs are in step before step number `n`. -/
structure InStep (machine other : Machine) (sink : Sink) (n : Nat) : Prop where
  reaches : other.Reaches sink n
  machines : (machine.moment sink n).1.AgreesOn (machine.SharedAfter other sink n)
    (other.moment sink n).1
  sinks : (other.moment sink n).2 = (machine.moment sink n).2

section Runs

variable {n : Nat} (running : machine.status = .running)
  (agrees : machine.AgreesOn (machine.ReadsInitially sink) other)
include running agrees

theorem InStep.stepAt (inStep : machine.InStep other sink n) (reaches : machine.Reaches sink n) :
    (machine.stepAt sink n).AgreesOn (machine.SharedAfter other sink (n + 1))
      (other.stepAt sink n) := by
  have reads (address : Nat) (read : (machine.moment sink n).1.Reads address) :
      machine.SharedAfter other sink n address := by
    by_cases stored : machine.StoresBefore sink n address
    · exact .inr stored
    · exact .inl (agrees.memory address ⟨n, reaches, read, stored⟩)
  have stepped :=
    inStep.machines.step reads (reaches.status_eq.trans running) (machine.moment sink n).2
  unfold Machine.stepAt
  rw [inStep.sinks]
  exact ⟨stepped.machine.mono fun _ => sharedAfter_succ, stepped.sink, stepped.result⟩

theorem Reaches.inStep (reaches : machine.Reaches sink n) : machine.InStep other sink n := by
  induction n with
  | zero =>
    refine ⟨reaches_zero other sink, ⟨agrees.pc, agrees.status, agrees.registers, ?_⟩, rfl⟩
    rintro address (same | ⟨i, before, -⟩)
    · exact same
    · exact absurd before (Nat.not_lt_zero i)
  | succ n ih =>
    have before := ih reaches.of_succ
    have stepped := before.stepAt running agrees reaches.of_succ
    exact ⟨before.reaches.succ (stepped.result.trans reaches.last), stepped.machine, stepped.sink⟩

end Runs

/-- **A run depends only on what it reads.** If another machine is at the same point,
with the same registers, and has the same cells where the run reads first contents,
then both runs take the same steps, each with the same outcome, and come to the same
end. The memories agree where they did at the beginning and where a PUSH stored. -/
theorem run_depends_on_reads (running : machine.status = .running)
    (agrees : machine.AgreesOn (machine.ReadsInitially sink) other) :
    ∃ n, machine.EndsAt sink n ∧ other.EndsAt sink n ∧
      (∀ i ≤ n, (machine.stepAt sink i).AgreesOn (machine.SharedAfter other sink (i + 1))
        (other.stepAt sink i)) ∧
      (machine.run sink).AgreesOn (machine.SharedAfter other sink (n + 1)) (other.run sink) := by
  obtain ⟨n, ends⟩ := exists_endsAt machine sink
  have steps (i : Nat) (le : i ≤ n) :
      (machine.stepAt sink i).AgreesOn (machine.SharedAfter other sink (i + 1))
        (other.stepAt sink i) := by
    have reaches := ends.reaches.mono le
    exact (reaches.inStep running agrees).stepAt running agrees reaches
  have last := steps n (Nat.le_refl n)
  have reaches := (ends.reaches.inStep running agrees).reaches
  have endsToo := ends.of_result_eq reaches last.result
  refine ⟨n, ends, endsToo, steps, ?_⟩
  rw [run_eq_joined ends, run_eq_joined endsToo]
  exact ⟨last.machine, last.sink, congrArg (Except.map _) last.result⟩

/-- A program that stores HLT over its byte at address 8 before it gets there: what
stood there does not matter. -/
theorem run_depends_on_reads_overwritten :
    let program : List UInt8 := [0x82, 0x00, 0x01, 0x82, 0x07, 0x09, 0x45, 0x00, 0x47, 0x00]
    let machine := (initial.load program .unlimited).machine
    let other : Machine := { machine with store := machine.store.setCell 8 0xFF }
    (machine.run .unlimited).AgreesOn (· = 8) (other.run .unlimited) := by
  intro program machine other
  have reaches : machine.Reaches .unlimited 3 := by
    unfold Reaches
    decide +kernel
  have push : (machine.moment .unlimited 2).1.Holds .push 0 0 := by
    refine ⟨?_, ?_, ?_⟩
    · decide +kernel
    · unfold HoldsOperand
      decide +kernel
    · unfold HoldsOperand
      decide +kernel
  have below : ((machine.moment .unlimited 2).1.store.sp - 1).toNat = 8 := by decide +kernel
  have stored := reaches.storesTo ⟨⟨0, 0, push⟩, below⟩
  have unread : ¬ machine.ReadsInitially .unlimited 8 := by
    rintro ⟨n, -, read, spared⟩
    have before : n ≤ 2 := Nat.le_of_not_lt fun later => spared ⟨2, later, stored⟩
    -- the instructions up to the PUSH lie in front of address 8, and none is a POP
    have code : ∀ i ≤ 2, ∃ opcode ≠ Opcode.pop,
        (machine.moment .unlimited i).1.store.memory.cell? (machine.moment .unlimited i).1.pc =
            some opcode.encode ∧
          (machine.moment .unlimited i).1.pc + opcode.operandCount < 8 := by
      intro i le
      obtain rfl | rfl | rfl : i = 0 ∨ i = 1 ∨ i = 2 := by omega
      · exact ⟨.ldi, nofun, by decide +kernel⟩
      · exact ⟨.ldi, nofun, by decide +kernel⟩
      · exact ⟨.push, nofun, by decide +kernel⟩
    obtain ⟨opcode, notPop, here, short⟩ := code n before
    rcases read.of_opcode here with close | ⟨pop, -⟩
    · exact absurd close (Nat.not_le.mpr short)
    · exact notPop pop
  have agrees : machine.AgreesOn (machine.ReadsInitially .unlimited) other :=
    AgreesOn.of_setCell machine unread 0xFF
  have running : machine.status = .running := rfl
  obtain ⟨n, ends, -, -, alike⟩ := run_depends_on_reads running agrees
  refine ⟨alike.machine.mono ?_, alike.sink, alike.result⟩
  rintro address rfl
  have late : 2 < n + 1 := by
    by_contra early
    exact ends.stops (reaches n (by omega))
  exact .inr ⟨2, late, stored⟩

end Machine

end ByteMachine
