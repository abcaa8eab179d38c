import ByteMachine.Proofs.Calculation
import ByteMachine.Proofs.StackRoom

/-!
# Stack discipline

Calls of PUSH and POP that are nested like brackets, with calculations between them that
leave the stack pointer alone. The calls of PUSH that are still open are the stack: the
cells from the stack pointer on hold what they pushed, the last one first (`Carries`). So
every POP delivers what the PUSH that it matches has pushed, and in the end the stack is
where it was, and memory above it (`pop_delivers_pushed`).
-/

namespace ByteMachine

/-! ## Nested calls -/

/-- The numbers of the PUSH calls among the first `n` calls that no POP has matched yet, the
last one first. -/
def openPushes (calls : List HandlerCall) : (n : Nat) → List Nat
  | 0 => []
  | n + 1 =>
    match calls[n]?.map HandlerCall.opcode with
    | some .push => n :: openPushes calls n
    | some .pop => (openPushes calls n).tail
    | _ => openPushes calls n

/-- Call number `j` is a POP, and of the PUSH calls that are open before it call number `i`
is the last one. -/
def Matches (calls : List HandlerCall) (i j : Nat) : Prop :=
  calls[j]?.map HandlerCall.opcode = some .pop ∧ (openPushes calls j).head? = some i

/-- How many PUSH calls are open at once, at most. -/
def nestingDepth (calls : List HandlerCall) : Nat :=
  ((List.range (calls.length + 1)).map fun n => (openPushes calls n).length).max?.getD 0

/-- Every POP matches a PUSH and every PUSH is matched in the end. What pops the stack
pointer has pushed it, and calculations do not touch it. -/
structure WellNested (calls : List HandlerCall) : Prop where
  known : ∀ call ∈ calls, call.opcode ∈ [Opcode.push, .pop] ∧ call.a.toNat < 8 ∨
    call.Calculates ∧ call.a ≠ 7
  matched : ∀ j, calls[j]?.map HandlerCall.opcode = some .pop → openPushes calls j ≠ []
  closed : openPushes calls calls.length = []
  likewise : ∀ i j push pop, Matches calls i j → calls[i]? = some push → calls[j]? = some pop →
    pop.a = 7 → push.a = 7

variable {calls : List HandlerCall} {call : HandlerCall} {i n : Nat}

theorem openPushes_push (next : calls[n]? = some call) (push : call.opcode = .push) :
    openPushes calls (n + 1) = n :: openPushes calls n := by
  simp only [openPushes, next, Option.map_some, push]

theorem openPushes_pop (next : calls[n]? = some call) (pop : call.opcode = .pop) :
    openPushes calls (n + 1) = (openPushes calls n).tail := by
  simp only [openPushes, next, Option.map_some, pop]

theorem openPushes_other (next : calls[n]? = some call) (push : call.opcode ≠ .push)
    (pop : call.opcode ≠ .pop) : openPushes calls (n + 1) = openPushes calls n := by
  rw [openPushes, next, Option.map_some]
  split
  · rename_i same
    exact absurd (Option.some.inj same) push
  · rename_i same
    exact absurd (Option.some.inj same) pop
  · rfl

theorem length_openPushes_le (le : n ≤ calls.length) :
    (openPushes calls n).length ≤ nestingDepth calls := by
  apply List.le_max?_getD_of_mem
  exact List.mem_map.mpr ⟨n, List.mem_range.mpr (Nat.lt_succ_of_le le), rfl⟩

/-- What is open is a PUSH. -/
theorem exists_push_of_mem (isOpen : i ∈ openPushes calls n) :
    ∃ push, calls[i]? = some push ∧ push.opcode = .push := by
  induction n with
  | zero => cases isOpen
  | succ n ih =>
    unfold openPushes at isOpen
    split at isOpen
    · rename_i found
      rcases List.mem_cons.mp isOpen with rfl | before
      · exact Option.map_eq_some_iff.mp found
      · exact ih before
    · exact ih (List.mem_of_mem_tail isOpen)
    · exact ih isOpen

theorem WellNested.exists_names (nested : WellNested calls) (next : calls[n]? = some call) :
    ∃ r, Names call.a r := by
  rcases nested.known call (List.mem_of_getElem? next) with ⟨-, small⟩ | ⟨calculates, -⟩
  · exact ⟨⟨call.a.toNat, small⟩, rfl⟩
  · exact ⟨⟨call.a.toNat, calculates.first⟩, rfl⟩

/-! ## What is pushed -/

/-- What PUSH stores of the register: its value, but of the stack pointer the value that
PUSH leaves in it. -/
def Store.pushed (store : Store) (r : Register) : UInt8 :=
  if r = .sp then store.sp - 1 else store.registers.get r

theorem Row.pushed {store : Store} {a b : UInt8} {r : Register} (names : Names a r)
    (room : store.sp ≠ 0) :
    Row store a b .push
      (.ok { store := (store.setSp (store.sp - 1)).setCell (store.sp - 1) (store.pushed r) }) := by
  unfold Store.pushed
  by_cases self : r = .sp
  · subst self
    rw [if_pos rfl]
    exact .pushSp names room
  · rw [if_neg self]
    exact .push names self room

theorem Names.unique {a : UInt8} {r s : Register} (names : Names a r) (names' : Names a s) :
    r = s :=
  Fin.ext (names.symm.trans names')

theorem Names.eq_sp_iff {a : UInt8} {r : Register} (names : Names a r) : r = .sp ↔ a = 7 :=
  (Register.eq_seven_iff (names_iff.mp names)).symm

namespace Machine

/-! ## Along the calls -/

/-- Registers and memory after the first `n` calls. -/
def storeAt (machine : Machine) (sink : Sink) (calls : List HandlerCall) (n : Nat) : Store :=
  (machine.called sink (calls.take n)).1.store

/-- The call with number `n` succeeds and goes on, and leaves `store`. -/
structure Leaves (machine : Machine) (sink : Sink) (calls : List HandlerCall) (n : Nat)
    (store : Store) : Prop where
  succeeds : ∀ call, calls[n]? = some call →
    let now := machine.called sink (calls.take n)
    (now.1.answer call now.2).result = .ok .next
  store : machine.storeAt sink calls (n + 1) = store

/-- Before call number `n` the open PUSH calls are on the stack, each one cell further up
than the one after it, and nothing else has been stored but below. -/
structure Carries (machine : Machine) (sink : Sink) (calls : List HandlerCall) (n : Nat) :
    Prop where
  balance : (machine.storeAt sink calls n).sp.toNat + (openPushes calls n).length =
    machine.store.sp.toNat
  cells : ∀ k i, (openPushes calls n)[k]? = some i →
    ∀ push r, calls[i]? = some push → Names push.a r →
    (machine.storeAt sink calls n).memory.cell? ((machine.storeAt sink calls n).sp.toNat + k) =
      some ((machine.storeAt sink calls i).pushed r)
  levels : ∀ k i, (openPushes calls n)[k]? = some i →
    (machine.storeAt sink calls i).sp.toNat = (machine.storeAt sink calls n).sp.toNat + k + 1
  spared : ∀ address, address + nestingDepth calls < machine.store.sp.toNat ∨
      machine.store.sp.toNat ≤ address →
    (machine.storeAt sink calls n).memory.cell? address = machine.store.memory.cell? address

variable {machine : Machine} {sink : Sink} {store : Store} {r : Register}

theorem leaves_of_row (next : calls[n]? = some call)
    (row : Row (machine.storeAt sink calls n) call.a call.b call.opcode (.ok { store })) :
    machine.Leaves sink calls n store := by
  have answered := answer_of_row row (machine.called sink (calls.take n)).2
  refine ⟨?_, ?_⟩
  · intro other same now
    obtain rfl := Option.some.inj (next.symm.trans same)
    rw [answered]
  · rw [storeAt, List.take_add_one, next, called_append]
    exact congrArg (·.machine.store) answered

theorem carries_zero (machine : Machine) (sink : Sink) (calls : List HandlerCall) :
    machine.Carries sink calls 0 where
  balance := rfl
  cells := nofun
  levels := nofun
  spared _ _ := rfl

namespace Carries

variable (carries : machine.Carries sink calls n)
include carries

/-- A call that moves neither the stack nor its pointer. -/
theorem of_kept (opened : openPushes calls (n + 1) = openPushes calls n)
    (memory : (machine.storeAt sink calls (n + 1)).memory = (machine.storeAt sink calls n).memory)
    (sp : (machine.storeAt sink calls (n + 1)).sp = (machine.storeAt sink calls n).sp) :
    machine.Carries sink calls (n + 1) := by
  refine ⟨?_, ?_, ?_, ?_⟩
  · rw [opened, sp]
    exact carries.balance
  · rw [opened, sp, memory]
    exact carries.cells
  · rw [opened, sp]
    exact carries.levels
  · rw [memory]
    exact carries.spared

/-- A call that takes the top off the stack. -/
theorem of_lowered (opened : openPushes calls (n + 1) = (openPushes calls n).tail)
    (some : openPushes calls n ≠ [])
    (memory : (machine.storeAt sink calls (n + 1)).memory = (machine.storeAt sink calls n).memory)
    (sp : (machine.storeAt sink calls (n + 1)).sp.toNat =
      (machine.storeAt sink calls n).sp.toNat + 1) :
    machine.Carries sink calls (n + 1) := by
  have shorter := List.length_pos_iff.mpr some
  have balance := carries.balance
  refine ⟨?_, ?_, ?_, ?_⟩
  · rw [opened, sp, List.length_tail]
    omega
  · intro k i found
    rw [opened, List.getElem?_tail] at found
    rw [memory, sp, Nat.add_assoc, Nat.add_comm 1 k]
    exact carries.cells (k + 1) i found
  · intro k i found
    rw [opened, List.getElem?_tail] at found
    have level := carries.levels (k + 1) i found
    omega
  · rw [memory]
    exact carries.spared

/-- A call that puts a value on top of the stack. -/
theorem of_raised (next : calls[n]? = some call) (names : Names call.a r)
    (room : (openPushes calls n).length < nestingDepth calls)
    (within : nestingDepth calls ≤ machine.store.sp.toNat)
    (opened : openPushes calls (n + 1) = n :: openPushes calls n)
    (left : machine.storeAt sink calls (n + 1) =
      ((machine.storeAt sink calls n).setSp ((machine.storeAt sink calls n).sp - 1)).setCell
        ((machine.storeAt sink calls n).sp - 1) ((machine.storeAt sink calls n).pushed r)) :
    machine.Carries sink calls (n + 1) := by
  have balance := carries.balance
  have lowered : ((machine.storeAt sink calls n).sp - 1).toNat + 1 =
      (machine.storeAt sink calls n).sp.toNat := by
    apply toNat_sub_one
    intro none
    rw [none, UInt8.toNat_zero] at balance
    omega
  have sp : (machine.storeAt sink calls (n + 1)).sp = (machine.storeAt sink calls n).sp - 1 := by
    rw [left]
    exact Store.sp_setSp _ _
  have memory : (machine.storeAt sink calls (n + 1)).memory =
      (machine.storeAt sink calls n).memory.set ((machine.storeAt sink calls n).sp - 1)
        ((machine.storeAt sink calls n).pushed r) := by
    rw [left]
    rfl
  refine ⟨?_, ?_, ?_, ?_⟩
  · rw [opened, sp, List.length_cons]
    omega
  · intro k i found push s pushed named
    rw [opened] at found
    rw [memory, sp]
    cases k with
    | zero =>
      obtain rfl : n = i := Option.some.inj found
      obtain rfl := Option.some.inj (next.symm.trans pushed)
      rw [Nat.add_zero, Memory.cell?_set_same, names.unique named]
    | succ k =>
      rw [Memory.cell?_set_other _ (by omega), ← carries.cells k i found push s pushed named]
      exact congrArg _ (by omega)
  · intro k i found
    rw [opened] at found
    rw [sp]
    cases k with
    | zero =>
      obtain rfl : n = i := Option.some.inj found
      exact lowered.symm
    | succ k =>
      have level := carries.levels k i found
      omega
  · intro address outside
    rw [memory, Memory.cell?_set_other _ (by omega)]
    exact carries.spared address outside

/-- The top of the stack is what the last open PUSH has pushed. -/
theorem get_sp (last : (openPushes calls n).head? = some i) {push : HandlerCall}
    (pushed : calls[i]? = some push) (names : Names push.a r) :
    (machine.storeAt sink calls n).memory.get (machine.storeAt sink calls n).sp =
      (machine.storeAt sink calls i).pushed r := by
  rw [List.head?_eq_getElem?] at last
  have top := carries.cells 0 i last push r pushed names
  rw [Nat.add_zero, Memory.cell?_toNat] at top
  exact Option.some.inj top

end Carries

/-! ## One call -/

/-- The POP with number `j` delivers what the PUSH with number `i` has pushed, and if that
was the stack pointer, puts it back to where it was before that PUSH. -/
def Delivers (machine : Machine) (sink : Sink) (calls : List HandlerCall) (i j : Nat) : Prop :=
  ∀ push pop r s, calls[i]? = some push → calls[j]? = some pop → Names push.a r →
    Names pop.a s →
    (s ≠ .sp → (machine.storeAt sink calls (j + 1)).registers.get s =
      (machine.storeAt sink calls i).pushed r) ∧
    (s = .sp → (machine.storeAt sink calls (j + 1)).sp = (machine.storeAt sink calls i).sp)

/-- Call number `n` succeeds, leaves the stack as it should be, and delivers if it is a POP. -/
structure Advances (machine : Machine) (sink : Sink) (calls : List HandlerCall) (n : Nat) :
    Prop where
  succeeds : ∀ call, calls[n]? = some call →
    let now := machine.called sink (calls.take n)
    (now.1.answer call now.2).result = .ok .next
  carries : machine.Carries sink calls (n + 1)
  delivers : ∀ i, Matches calls i n → machine.Delivers sink calls i n

theorem not_matches (next : calls[n]? = some call) (pop : call.opcode ≠ .pop) :
    ¬ Matches calls i n := by
  rintro ⟨same, -⟩
  rw [next, Option.map_some] at same
  exact pop (Option.some.inj same)

namespace Carries

variable (carries : machine.Carries sink calls n)
include carries

theorem push (nested : WellNested calls) (within : nestingDepth calls ≤ machine.store.sp.toNat)
    (next : calls[n]? = some call) (push : call.opcode = .push) :
    machine.Advances sink calls n := by
  obtain ⟨r, names⟩ := nested.exists_names next
  have opened := openPushes_push next push
  have inside := (List.getElem?_eq_some_iff.mp next).1
  have deepest : (openPushes calls (n + 1)).length ≤ nestingDepth calls :=
    length_openPushes_le inside
  rw [opened, List.length_cons] at deepest
  have room : (machine.storeAt sink calls n).sp ≠ 0 := by
    intro none
    have balance := carries.balance
    rw [none, UInt8.toNat_zero] at balance
    omega
  have row := Row.pushed (b := call.b) names room
  rw [← push] at row
  have leaves := leaves_of_row next row
  refine ⟨leaves.succeeds, ?_, ?_⟩
  · exact carries.of_raised next names deepest within opened leaves.store
  · intro i isMatched
    exact absurd isMatched (not_matches next (by rw [push]; decide))

theorem calculate (next : calls[n]? = some call) (calculates : call.Calculates)
    (other : call.a ≠ 7) : machine.Advances sink calls n := by
  -- any integers that the registers reduce will do
  obtain ⟨values, reduce⟩ := (machine.storeAt sink calls n).registers.exists_reduce
  obtain ⟨r, value, x, assigns⟩ := calculates.exists_assigns reduce
  have notPush : call.opcode ≠ .push := by
    intro push
    exact absurd (push ▸ calculates.kind) (by decide)
  have notPop : call.opcode ≠ .pop := by
    intro pop
    exact absurd (pop ▸ calculates.kind) (by decide)
  have leaves := leaves_of_row next assigns.row
  refine ⟨leaves.succeeds, carries.of_kept (openPushes_other next notPush notPop) ?_ ?_, ?_⟩
  · rw [leaves.store]
    rfl
  · rw [leaves.store]
    exact Store.sp_setRegister_other _ (fun self => other (assigns.names.eq_sp_iff.mp self)) value
  · intro i isMatched
    exact absurd isMatched (not_matches next notPop)

/-- Into a register other than the stack pointer, POP delivers what was pushed. -/
theorem pop_other {push : HandlerCall} {s : Register} (next : calls[n]? = some call)
    (pop : call.opcode = .pop) (last : (openPushes calls n).head? = some i)
    (pushed : calls[i]? = some push) (named : Names push.a r) (names : Names call.a s)
    (other : s ≠ .sp) : machine.Advances sink calls n := by
  have top := carries.get_sp last pushed named
  have some : openPushes calls n ≠ [] := List.ne_nil_of_mem (List.mem_of_mem_head? last)
  have balance := carries.balance
  have length := List.length_pos_iff.mpr some
  have room : (machine.storeAt sink calls n).sp ≠ 255 := by
    intro full
    have small := machine.store.sp.toNat_lt
    rw [full] at balance
    change 255 + _ = _ at balance
    omega
  have row := Row.pop (b := call.b) names other room
  rw [← pop] at row
  have leaves := leaves_of_row next row
  refine ⟨leaves.succeeds, carries.of_lowered (openPushes_pop next pop) some ?_ ?_, ?_⟩
  · rw [leaves.store]
    rfl
  · rw [leaves.store, Store.sp_setSp, toNat_add_one room]
  · rintro i' ⟨-, last'⟩ push' pop' r' s' pushed' next' named' names'
    obtain rfl := Option.some.inj (last.symm.trans last')
    obtain rfl := Option.some.inj (pushed.symm.trans pushed')
    obtain rfl := Option.some.inj (next.symm.trans next')
    obtain rfl := named.unique named'
    obtain rfl := names.unique names'
    refine ⟨fun _ => ?_, fun self => absurd self other⟩
    rw [leaves.store, Store.get_setSp_other _ other, ← top]
    exact Registers.get_set_same _ s _

/-- The stack pointer was pushed as one below its value before, which POP makes up for. -/
theorem pop_sp {push : HandlerCall} (next : calls[n]? = some call)
    (pop : call.opcode = .pop) (last : (openPushes calls n).head? = some i)
    (pushed : calls[i]? = some push) (named : Names push.a .sp) (names : Names call.a .sp) :
    machine.Advances sink calls n := by
  have top := carries.get_sp last pushed named
  have some : openPushes calls n ≠ [] := List.ne_nil_of_mem (List.mem_of_mem_head? last)
  have level := carries.levels 0 i (List.head?_eq_getElem? ▸ last)
  rw [Store.pushed, if_pos rfl] at top
  have before : (machine.storeAt sink calls i).sp - 1 + 1 = (machine.storeAt sink calls i).sp :=
    UInt8.sub_add_cancel _ _
  have room : (machine.storeAt sink calls n).memory.get (machine.storeAt sink calls n).sp ≠ 255 := by
    rw [top]
    intro full
    rw [full] at before
    rw [← before] at level
    change 0 = _ at level
    omega
  have row := Row.popSp (b := call.b) names room
  rw [← pop, top, before] at row
  have leaves := leaves_of_row next row
  refine ⟨leaves.succeeds, carries.of_lowered (openPushes_pop next pop) some ?_ ?_, ?_⟩
  · rw [leaves.store]
    rfl
  · rw [leaves.store, Store.sp_setSp, level]
  · rintro i' ⟨-, last'⟩ push' pop' r' s' pushed' next' named' names'
    obtain rfl := Option.some.inj (last.symm.trans last')
    obtain rfl := Option.some.inj (next.symm.trans next')
    obtain rfl := names.unique names'
    refine ⟨fun other => absurd rfl other, fun _ => ?_⟩
    rw [leaves.store, Store.sp_setSp]

theorem pop (nested : WellNested calls) (next : calls[n]? = some call)
    (pop : call.opcode = .pop) : machine.Advances sink calls n := by
  have isPop : calls[n]?.map HandlerCall.opcode = some .pop := by rw [next, Option.map_some, pop]
  obtain ⟨i, rest, opened⟩ := List.exists_cons_of_ne_nil (nested.matched n isPop)
  have last : (openPushes calls n).head? = some i := by rw [opened, List.head?_cons]
  obtain ⟨push, pushed, -⟩ := exists_push_of_mem (List.mem_of_mem_head? last)
  obtain ⟨r, named⟩ := nested.exists_names pushed
  obtain ⟨s, names⟩ := nested.exists_names next
  by_cases self : s = .sp
  · subst self
    have likewise := nested.likewise i n push call ⟨isPop, last⟩ pushed next (names.eq_sp_iff.mp rfl)
    obtain rfl := named.eq_sp_iff.mpr likewise
    exact carries.pop_sp next pop last pushed named names
  · exact carries.pop_other next pop last pushed named names self

/-- One call after the other keeps the stack. -/
theorem advances (nested : WellNested calls)
    (within : nestingDepth calls ≤ machine.store.sp.toNat) (inside : n < calls.length) :
    machine.Advances sink calls n := by
  have next := List.getElem?_eq_getElem inside
  rcases nested.known _ (List.getElem_mem inside) with ⟨kind, -⟩ | ⟨calculates, other⟩
  · rcases List.mem_pair.mp kind with push | pop
    · exact carries.push nested within next push
    · exact carries.pop nested next pop
  · exact carries.calculate next calculates other

end Carries

/-! ## All calls -/

section

variable (nested : WellNested calls) (within : nestingDepth calls ≤ machine.store.sp.toNat)
include nested within

theorem carries_of_le (sink : Sink) (le : n ≤ calls.length) : machine.Carries sink calls n := by
  induction n with
  | zero => exact carries_zero machine sink calls
  | succ n ih => exact ((ih (Nat.le_of_succ_le le)).advances nested within le).carries

theorem advances_of_lt (sink : Sink) (inside : n < calls.length) :
    machine.Advances sink calls n :=
  (carries_of_le nested within sink (Nat.le_of_lt inside)).advances nested within inside

/-- **Stack discipline.** Calls of PUSH and POP that are well nested, with calculations
between them, all succeed if the stack pointer leaves room for the deepest nesting. Each POP
delivers what its PUSH has pushed: the value of the register, or the lowered stack pointer.
A POP of the stack pointer puts it back to where it was before its PUSH. In the end the
stack pointer is where it was, and no cell has changed but those that the nesting took. -/
theorem pop_delivers_pushed (sink : Sink) :
    machine.AllSucceed sink calls ∧
    (∀ i j push pop r s, Matches calls i j → calls[i]? = some push → calls[j]? = some pop →
      Names push.a r → Names pop.a s →
      let before := machine.storeAt sink calls i
      let after := machine.storeAt sink calls (j + 1)
      (s ≠ .sp →
        after.registers.get s = if r = .sp then before.sp - 1 else before.registers.get r) ∧
      (s = .sp → after.sp = before.sp)) ∧
    (machine.called sink calls).1.store.sp = machine.store.sp ∧
    ∀ address, address + nestingDepth calls < machine.store.sp.toNat ∨
        machine.store.sp.toNat ≤ address →
      (machine.called sink calls).1.store.memory.cell? address =
        machine.store.memory.cell? address := by
  have last := carries_of_le nested within sink (Nat.le_refl _)
  have whole : machine.storeAt sink calls calls.length = (machine.called sink calls).1.store := by
    rw [storeAt, List.take_length]
  refine ⟨?_, ?_, ?_, ?_⟩
  · intro n call next
    have inside := (List.getElem?_eq_some_iff.mp next).1
    exact (advances_of_lt nested within sink inside).succeeds call next
  · intro i j push pop r s isMatched pushed popped named names
    have inside := (List.getElem?_eq_some_iff.mp popped).1
    have delivers := (advances_of_lt nested within sink inside).delivers i isMatched
    exact delivers push pop r s pushed popped named names
  · have balance := last.balance
    rw [nested.closed, List.length_nil, Nat.add_zero, whole] at balance
    exact UInt8.toNat_inj.mp balance
  · rw [← whole]
    exact last.spared

end

/-- A value is pushed on top of the stack pointer itself, popped into another register, and
then the stack pointer is popped. -/
theorem pop_delivers_pushed_stack_pointer :
    let calls : List HandlerCall :=
      [⟨.ldi, 0, 9⟩, ⟨.push, 7, 0⟩, ⟨.push, 0, 0⟩, ⟨.ldi, 0, 5⟩, ⟨.pop, 1, 0⟩, ⟨.pop, 7, 0⟩]
    (initial.storeAt .unlimited calls 5).registers.get 1 = 9 ∧
      (initial.storeAt .unlimited calls 6).sp = (initial.storeAt .unlimited calls 1).sp ∧
      (initial.called .unlimited calls).1.store.sp = 0xF4 := by
  intro calls
  have pops (j : Nat) (isPop : calls[j]?.map HandlerCall.opcode = some .pop) : j = 4 ∨ j = 5 := by
    obtain ⟨pop, found, -⟩ := Option.map_eq_some_iff.mp isPop
    have table : ∀ j < 6, calls[j]?.map HandlerCall.opcode = some .pop → j = 4 ∨ j = 5 := by decide
    exact table j (List.getElem?_eq_some_iff.mp found).1 isPop
  have nested : WellNested calls := by
    refine ⟨?_, ?_, by decide, ?_⟩
    · have calculates (value : UInt8) : HandlerCall.Calculates ⟨.ldi, 0, value⟩ :=
        ⟨List.mem_cons_self, Nat.succ_pos 7, nofun⟩
      simp [calls, calculates]
    · intro j isPop
      rcases pops j isPop with rfl | rfl
      · decide
      · decide
    · rintro i j push pop ⟨isPop, last⟩ pushed popped seven
      rcases pops j isPop with rfl | rfl
      · cases popped
        cases seven
      · obtain rfl : 1 = i := Option.some.inj last
        cases pushed
        rfl
  have within : nestingDepth calls ≤ initial.store.sp.toNat := by decide +kernel
  obtain ⟨-, delivers, sp, -⟩ := pop_delivers_pushed nested within .unlimited
  have value : (initial.storeAt .unlimited calls 2).registers.get 0 = 9 := by decide +kernel
  obtain ⟨one, -⟩ := delivers 2 4 ⟨.push, 0, 0⟩ ⟨.pop, 1, 0⟩ 0 1 ⟨rfl, rfl⟩ rfl rfl rfl rfl
  obtain ⟨-, back⟩ := delivers 1 5 ⟨.push, 7, 0⟩ ⟨.pop, 7, 0⟩ .sp .sp ⟨rfl, rfl⟩ rfl rfl rfl rfl
  exact ⟨(one (by decide)).trans value, back rfl, sp⟩

end Machine

end ByteMachine
