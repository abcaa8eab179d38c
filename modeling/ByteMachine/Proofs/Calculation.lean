import Mathlib.Data.Int.ModEq
import ByteMachine.Proofs.Rows

/-!
# Calculations

Handlers called one after the other, whatever program is in memory. Calls of LDI and of the
arithmetic instructions come to the same as a calculation with integers, which may grow
without limit and fall below zero: it makes no difference whether values are reduced to
bytes at every call or once at the end (`calculates_as_integers`).
-/

namespace ByteMachine

/-! ## Calls of handlers -/

/-- A call of the handler of an instruction, with the operand bytes that it is given. -/
structure HandlerCall where
  opcode : Opcode
  a : UInt8
  b : UInt8
deriving DecidableEq, Repr

namespace Machine

/-- What a call comes to. -/
def answer (machine : Machine) (call : HandlerCall) (sink : Sink) : Outcome Flow :=
  machine.perform call.opcode.handler call.a call.b sink

/-- Machine and sink after calls, one after the other, whatever they answer. -/
def called (machine : Machine) (sink : Sink) : (calls : List HandlerCall) → Machine × Sink
  | [] => (machine, sink)
  | call :: rest =>
    let done := machine.answer call sink
    done.machine.called done.sink rest

/-- Each of the calls succeeds, made after those before it, and lets the machine go on. -/
def AllSucceed (machine : Machine) (sink : Sink) (calls : List HandlerCall) : Prop :=
  ∀ n call, calls[n]? = some call →
    let now := machine.called sink (calls.take n)
    (now.1.answer call now.2).result = .ok .next

variable {machine : Machine} {sink : Sink}

theorem called_append (machine : Machine) (sink : Sink) (first second : List HandlerCall) :
    machine.called sink (first ++ second) =
      (machine.called sink first).1.called (machine.called sink first).2 second := by
  induction first generalizing machine sink with
  | nil => rfl
  | cons call first ih => exact ih _ _

/-- An instruction that prints nothing and goes on leaves its store and nothing else. -/
theorem answer_of_row {call : HandlerCall} {store : Store}
    (row : Row machine.store call.a call.b call.opcode (.ok { store })) (sink : Sink) :
    machine.answer call sink =
      { machine := { machine with store }, sink, result := .ok .next } := by
  rw [answer, perform_handler, row_iff.mp row]
  rfl

end Machine

/-! ## Calculating with integers -/

namespace HandlerCall

/-- The call is one of LDI or of an arithmetic instruction, and the operands that are to
name registers do. -/
structure Calculates (call : HandlerCall) : Prop where
  kind : call.opcode ∈ [Opcode.ldi, .add, .sub, .mul, .inc, .dec]
  first : call.a.toNat < 8
  second : call.opcode ∈ [Opcode.add, .sub, .mul] → call.b.toNat < 8

/-- What the call makes of registers that hold integers, with the numbers by which operands
name them. -/
def onIntegers (call : HandlerCall) (values : Nat → Int) : Nat → Int :=
  let a := call.a.toNat
  let b := call.b.toNat
  match call.opcode with
  | .ldi => Function.update values a b
  | .add => Function.update values a (values a + values b)
  | .sub => Function.update values a (values a - values b)
  | .mul => Function.update values a (values a * values b)
  | .inc => Function.update values a (values a + 1)
  | .dec => Function.update values a (values a - 1)
  | .hlt | .prn | .push | .pop => values

end HandlerCall

/-- The integers after calls, one after the other. -/
def integersAfter (values : Nat → Int) (calls : List HandlerCall) : Nat → Int :=
  calls.foldl (fun values call => call.onIntegers values) values

/-- Each register holds its integer modulo 256. -/
def Registers.Reduce (registers : Registers) (values : Nat → Int) : Prop :=
  ∀ r : Register, values r ≡ (registers.get r).toNat [ZMOD 256]

variable {values : Nat → Int} {registers : Registers} {x : Int} {value : UInt8}

/-- Some integers can stand for the values of registers. -/
theorem Registers.exists_reduce (registers : Registers) : ∃ values, registers.Reduce values := by
  refine ⟨fun n => if h : n < 8 then (registers.get ⟨n, h⟩).toNat else 0, fun r => ?_⟩
  simp only [r.isLt, dif_pos]
  rfl

theorem Registers.Reduce.eq_emod (reduce : registers.Reduce values) (r : Register) :
    ((registers.get r).toNat : Int) = values r % 256 := by
  have small := (registers.get r).toNat_lt
  have same : values r % 256 = ((registers.get r).toNat : Int) % 256 := reduce r
  omega

theorem Registers.Reduce.set (reduce : registers.Reduce values) (r : Register)
    (same : x ≡ value.toNat [ZMOD 256]) :
    (registers.set r value).Reduce (Function.update values r x) := by
  intro s
  rw [get_set]
  by_cases written : r = s
  · subst written
    rw [if_pos rfl, Function.update_self]
    exact same
  · have other : (s : Nat) ≠ r := fun eq => written (Fin.ext eq.symm)
    rw [if_neg written, Function.update_of_ne other]
    exact reduce s

/-! ## One call -/

namespace Opcode

variable {opcode : Opcode} {x' y y' : Int}

/-- Reducing the operands of an instruction makes no difference to its reduced result. -/
theorem modEq_of_ofTwo? {f : Int → Int → Int} (two : opcode.ofTwo? = some f)
    (first : x ≡ x' [ZMOD 256]) (second : y ≡ y' [ZMOD 256]) : f x y ≡ f x' y' [ZMOD 256] := by
  cases opcode with
  | add => cases two; exact first.add second
  | sub => cases two; exact first.sub second
  | mul => cases two; exact first.mul second
  | _ => cases two

theorem modEq_of_ofOne? {f : Int → Int} (one : opcode.ofOne? = some f)
    (same : x ≡ x' [ZMOD 256]) : f x ≡ f x' [ZMOD 256] := by
  cases opcode with
  | inc => cases one; exact same.add_right 1
  | dec => cases one; exact same.sub_right 1
  | _ => cases one

end Opcode

namespace HandlerCall

variable {call : HandlerCall} {store : Store}

/-- The call puts `value` in the register `r`, and the integer `x` in its place if registers
hold integers. -/
structure Assigns (call : HandlerCall) (store : Store) (values : Nat → Int) (r : Register)
    (value : UInt8) (x : Int) : Prop where
  row : Row store call.a call.b call.opcode (.ok { store := store.setRegister r value })
  names : Names call.a r
  integers : call.onIntegers values = Function.update values r x
  same : x ≡ value.toNat [ZMOD 256]

theorem exists_assigns_of_ofTwo? {f : Int → Int → Int} (two : call.opcode.ofTwo? = some f)
    (integers : call.onIntegers values =
      Function.update values call.a.toNat (f (values call.a.toNat) (values call.b.toNat)))
    (reduce : store.registers.Reduce values) {r s : Register} (first : Names call.a r)
    (second : Names call.b s) : ∃ value x, call.Assigns store values r value x := by
  obtain ⟨g, -, computes⟩ := effect_of_ofTwo? two call.a call.b store
  rw [first, second] at integers
  refine ⟨_, _, .ofTwo two first second (computes _ _), first, integers, ?_⟩
  rw [computes]
  exact (Opcode.modEq_of_ofTwo? two (reduce r) (reduce s)).trans (Int.mod_modEq _ _).symm

theorem exists_assigns_of_ofOne? {f : Int → Int} (one : call.opcode.ofOne? = some f)
    (integers : call.onIntegers values =
      Function.update values call.a.toNat (f (values call.a.toNat)))
    (reduce : store.registers.Reduce values) {r : Register} (first : Names call.a r) :
    ∃ value x, call.Assigns store values r value x := by
  obtain ⟨g, -, computes⟩ := effect_of_ofOne? one call.a call.b store
  rw [first] at integers
  refine ⟨_, _, .ofOne one first (computes _), first, integers, ?_⟩
  rw [computes]
  exact (Opcode.modEq_of_ofOne? one (reduce r)).trans (Int.mod_modEq _ _).symm

theorem Calculates.exists_assigns (calculates : call.Calculates)
    (reduce : store.registers.Reduce values) :
    ∃ r value x, call.Assigns store values r value x := by
  obtain ⟨opcode, a, b⟩ := call
  obtain ⟨kind, small, second⟩ := calculates
  dsimp only at kind small second
  have first : Names a ⟨a.toNat, small⟩ := rfl
  refine ⟨⟨a.toNat, small⟩, ?_⟩
  cases opcode with
  | ldi => exact ⟨b, b.toNat, .ldi first, first, rfl, .refl _⟩
  | add | sub | mul =>
    have named : Names b ⟨b.toNat, second (by decide)⟩ := rfl
    exact exists_assigns_of_ofTwo? rfl rfl reduce first named
  | inc | dec => exact exists_assigns_of_ofOne? rfl rfl reduce first
  | hlt | prn | push | pop => exact absurd kind (by decide)

end HandlerCall

/-! ## All calls -/

namespace Machine

variable {machine : Machine} {sink : Sink} {call : HandlerCall} {calls : List HandlerCall}

/-- The machine with other values in its registers. -/
def withRegisters (machine : Machine) (registers : Registers) : Machine :=
  { machine with store := { machine.store with registers } }

theorem exists_answer_of_calculates (calculates : call.Calculates)
    (reduce : machine.store.registers.Reduce values) (sink : Sink) :
    ∃ registers, machine.answer call sink =
        { machine := machine.withRegisters registers, sink, result := .ok .next } ∧
      registers.Reduce (call.onIntegers values) := by
  obtain ⟨r, value, x, assigns⟩ := calculates.exists_assigns reduce
  refine ⟨machine.store.registers.set r value, answer_of_row assigns.row sink, ?_⟩
  rw [assigns.integers]
  exact reduce.set r assigns.same

theorem exists_called_of_calculates (calculate : ∀ call ∈ calls, call.Calculates)
    (reduce : machine.store.registers.Reduce values) (sink : Sink) :
    ∃ registers, machine.called sink calls = (machine.withRegisters registers, sink) ∧
      registers.Reduce (integersAfter values calls) := by
  induction calls generalizing machine values with
  | nil => exact ⟨machine.store.registers, rfl, reduce⟩
  | cons call rest ih =>
    obtain ⟨between, answered, reduced⟩ :=
      exists_answer_of_calculates (calculate call List.mem_cons_self) reduce sink
    have later := fun next mem => calculate next (List.mem_cons_of_mem call mem)
    have started : (machine.withRegisters between).store.registers.Reduce
        (call.onIntegers values) := reduced
    obtain ⟨registers, after, reduces⟩ := ih later started
    refine ⟨registers, ?_, reduces⟩
    rw [called, answered]
    exact after

theorem allSucceed_of_calculates (calculate : ∀ call ∈ calls, call.Calculates)
    (reduce : machine.store.registers.Reduce values) (sink : Sink) :
    machine.AllSucceed sink calls := by
  intro n call next now
  have before := fun call mem => calculate call (List.mem_of_mem_take (i := n) mem)
  obtain ⟨registers, reached, reduces⟩ := exists_called_of_calculates before reduce sink
  have here : now.1.store.registers.Reduce (integersAfter values (calls.take n)) := by
    unfold now
    rw [reached]
    exact reduces
  obtain ⟨_, answered, -⟩ :=
    exists_answer_of_calculates (calculate call (List.mem_of_getElem? next)) here now.2
  rw [answered]

/-- **Arithmetic is that of integers modulo 256, at any length.** Whatever calls of LDI and
of arithmetic instructions are made, with whatever registers, all of them succeed. They
leave in each register the remainder of what the same calls make of integers that are never
reduced, and they change nothing but registers, nor print anything. -/
theorem calculates_as_integers (calculate : ∀ call ∈ calls, call.Calculates) (machine : Machine)
    (sink : Sink) (start : ∀ r : Register, values r = (machine.store.registers.get r).toNat) :
    machine.AllSucceed sink calls ∧
    (∀ r : Register, (((machine.called sink calls).1.store.registers.get r).toNat : Int) =
      integersAfter values calls r % 256) ∧
    ∃ registers, machine.called sink calls = (machine.withRegisters registers, sink) := by
  have reduce : machine.store.registers.Reduce values := by
    intro r
    rw [start r]
  obtain ⟨registers, after, reduces⟩ := exists_called_of_calculates calculate reduce sink
  refine ⟨allSucceed_of_calculates calculate reduce sink, ?_, registers, after⟩
  intro r
  rw [after]
  exact reduces.eq_emod r

/-- The stack pointer is doubled and then squared, which is 238144 without reduction, and
the result is taken away from itself and from zero. -/
theorem calculates_as_integers_stack_pointer :
    let calls : List HandlerCall :=
      [⟨.add, 7, 7⟩, ⟨.mul, 7, 7⟩, ⟨.sub, 0, 7⟩, ⟨.dec, 0, 200⟩, ⟨.sub, 7, 7⟩]
    initial.AllSucceed .unlimited calls ∧
      ((initial.called .unlimited calls).1.store.registers.get 0).toNat = 191 := by
  intro calls
  have calculate : ∀ call ∈ calls, call.Calculates := by
    intro call mem
    refine ⟨?_, ?_, ?_⟩ <;> revert call <;> decide
  let values (n : Nat) : Int := if n = 7 then 244 else 0
  have start : ∀ r : Register, values r = (initial.store.registers.get r).toNat := by decide
  obtain ⟨succeed, reduced, -⟩ := calculates_as_integers calculate initial .unlimited start
  have first := reduced 0
  have value : integersAfter values calls (0 : Register) = -238145 := by decide +kernel
  rw [value] at first
  exact ⟨succeed, by omega⟩

end Machine

end ByteMachine
