import ByteMachine.Handler

/-!
# Effects

What an instruction does, said at once: it fails for a reason that registers and
memory give, or it has a complete effect, which holds unless a line cannot be
printed. `perform_handler` says that working through the handler of an
instruction comes to the same.
-/

namespace ByteMachine

/-- Everything that an instruction does if it does not fail. -/
structure Effect where
  store : Store
  /-- The line it prints, if it prints one. -/
  line : Option (List Char) := none
  flow : Flow := .next
deriving DecidableEq, Repr

namespace Effect

def push (a : UInt8) (store : Store) : Except Fault Effect := do
  let source ← Register.ofByte a
  if store.sp = 0 then
    .error (.stackOutOfBounds .push store.sp)
  else
    let lowered := store.setSp (store.sp - 1)
    .ok { store := lowered.setCell lowered.sp (lowered.registers.get source) }

def pop (a : UInt8) (store : Store) : Except Fault Effect := do
  let target ← Register.ofByte a
  let value := store.memory.get store.sp
  let base := if target = .sp then value else store.sp
  if base = 255 then
    .error (.stackOutOfBounds .pop store.sp)
  else
    .ok { store := (store.setRegister target value).setSp (base + 1) }

def binary (f : UInt8 → UInt8 → UInt8) (a b : UInt8) (store : Store) : Except Fault Effect := do
  let source ← Register.ofByte b
  let target ← Register.ofByte a
  let value := f (store.registers.get target) (store.registers.get source)
  .ok { store := store.setRegister target value }

def unary (f : UInt8 → UInt8) (a : UInt8) (store : Store) : Except Fault Effect := do
  let target ← Register.ofByte a
  .ok { store := store.setRegister target (f (store.registers.get target)) }

/-- Everything that the effect prints. -/
def printed (effect : Effect) : List Char :=
  match effect.line with
  | none => []
  | some line => line ++ ['\n']

/-- Prints the line of the effect, if it has one. -/
def print (effect : Effect) (sink : Sink) : Sink × Except IoError Unit :=
  match effect.line with
  | none => (sink, .ok ())
  | some line => sink.writeLine line

/-- Puts the effect into force. If its line cannot be printed, all that it leaves
is the part of the line that the sink took. -/
def apply (effect : Effect) (machine : Machine) (sink : Sink) : Outcome Flow :=
  let printed := effect.print sink
  match printed.2 with
  | .ok () =>
    { machine := { machine with store := effect.store }
      sink := printed.1
      result := .ok effect.flow }
  | .error error => { machine, sink := printed.1, result := .error (.output error) }

/-- What comes of an instruction that answers with an effect or a fault. -/
def settle (answer : Except Fault Effect) (machine : Machine) (sink : Sink) : Outcome Flow :=
  match answer with
  | .ok effect => effect.apply machine sink
  | .error fault => { machine, sink, result := .error fault }

/-! ## What printing leaves behind -/

variable {effect : Effect} {sink : Sink}

theorem print_of_silent (silent : effect.line = none) (sink : Sink) :
    effect.print sink = (sink, .ok ()) := by
  rw [print, silent]

theorem text_print_of_ok (h : (effect.print sink).2 = .ok ()) :
    (effect.print sink).1.text = sink.text ++ effect.printed := by
  unfold print printed at *
  cases line : effect.line with
  | none => simp
  | some line =>
    simp only [line] at h
    exact Sink.text_writeLine_of_ok h

/-- Printing that fails leaves a part of the text, and never all of it. -/
theorem text_print_of_error {error : IoError} (h : (effect.print sink).2 = .error error) :
    ∃ taken left, left ≠ [] ∧ effect.printed = taken ++ left ∧
      (effect.print sink).1.text = sink.text ++ taken := by
  unfold print printed at *
  cases line : effect.line with
  | none =>
    simp only [line] at h
    cases h
  | some line =>
    simp only [line] at h
    exact Sink.text_writeLine_of_error h

theorem print_of_accepting (h : sink.Accepting) (effect : Effect) :
    (effect.print sink).2 = .ok () := by
  unfold print
  cases effect.line with
  | none => rfl
  | some line => exact h.writeLine line

theorem reply_print (effect : Effect) (sink : Sink) :
    (effect.print sink).1.reply = sink.reply := by
  unfold print
  cases effect.line with
  | none => rfl
  | some line => exact sink.reply_writeLine line

end Effect

/-- The effect of each instruction with operand bytes `a` and `b`. -/
def Opcode.effect (opcode : Opcode) (a b : UInt8) (store : Store) : Except Fault Effect :=
  match opcode with
  | hlt => .ok { store, flow := .halt }
  | ldi => do
    let target ← Register.ofByte a
    .ok { store := store.setRegister target b }
  | prn => do
    let source ← Register.ofByte a
    let value := store.registers.get source
    .ok { store, line := some (Numeral.decimalDigits value.toNat) }
  | push => Effect.push a store
  | pop => Effect.pop a store
  | add => Effect.binary (· + ·) a b store
  | sub => Effect.binary (· - ·) a b store
  | mul => Effect.binary (· * ·) a b store
  | inc => Effect.unary (· + 1) a store
  | dec => Effect.unary (· - 1) a store

namespace Opcode

variable {opcode : Opcode} {a b : UInt8} {store : Store} {effect : Effect}

/-- Every instruction but HLT goes on. -/
theorem ne_hlt_of_effect (h : opcode.effect a b store = .ok effect) (flow : effect.flow = .next) :
    opcode ≠ hlt := by
  rintro rfl
  cases h
  cases flow

end Opcode

/-! ## Single actions -/

namespace Action

variable {index value address : UInt8} {register : Register} {fault : Fault} {machine : Machine}
  {sink : Sink}

theorem run_register (h : Register.ofByte index = .ok register) :
    (Action.register index).run (machine, sink) =
      .ok (machine.store.registers.get register) (machine, sink) := by
  simp only [Action.register, Machine.register, h, EStateM.run_bind, EStateM.run_get]
  rfl

theorem run_register_error (h : Register.ofByte index = .error fault) :
    (Action.register index).run (machine, sink) = .error fault (machine, sink) := by
  simp only [Action.register, Machine.register, h, EStateM.run_bind, EStateM.run_get]
  rfl

theorem run_setRegister (h : Register.ofByte index = .ok register) :
    (setRegister index value).run (machine, sink) =
      .ok () ({ machine with store := machine.store.setRegister register value }, sink) := by
  simp only [setRegister, h, EStateM.run_bind]
  rfl

theorem run_setRegister_error (h : Register.ofByte index = .error fault) :
    (setRegister index value).run (machine, sink) = .error fault (machine, sink) := by
  simp only [setRegister, h, EStateM.run_bind]
  rfl

theorem run_sp : sp.run (machine, sink) = .ok machine.store.sp (machine, sink) := rfl

theorem run_setSp :
    (setSp value).run (machine, sink) =
      .ok () ({ machine with store := machine.store.setSp value }, sink) := rfl

theorem run_cell :
    (cell address.toNat).run (machine, sink) =
      .ok (machine.store.memory.get address) (machine, sink) := by
  simp only [cell, EStateM.run_bind, EStateM.run_get, Memory.read_toNat]
  rfl

theorem run_setCell :
    (setCell address.toNat value).run (machine, sink) =
      .ok () ({ machine with store := machine.store.setCell address value }, sink) := by
  simp only [setCell, EStateM.run_bind, EStateM.run_get, Memory.write_toNat]
  rfl

theorem run_printLine {line : List Char} (h : (sink.writeLine line).2 = .ok ()) :
    (printLine line).run (machine, sink) = .ok () (machine, (sink.writeLine line).1) := by
  simp only [printLine, EStateM.run_bind, EStateM.run_get, EStateM.run_set, h]
  rfl

theorem run_printLine_error {line : List Char} {error : IoError}
    (h : (sink.writeLine line).2 = .error error) :
    (printLine line).run (machine, sink) =
      .error (.output error) (machine, (sink.writeLine line).1) := by
  simp only [printLine, EStateM.run_bind, EStateM.run_get, EStateM.run_set, h]
  rfl

end Action

/-! ## Whole handlers -/

/-- Calls `handler` on the machine and its sink. -/
def Machine.perform (handler : Handler) (a b : UInt8) (machine : Machine) (sink : Sink) :
    Outcome Flow :=
  match (handler a b).run (machine, sink) with
  | .ok flow (machine, sink) => { machine, sink, result := .ok flow }
  | .error fault (machine, sink) => { machine, sink, result := .error fault }

namespace Machine

open ByteMachine.Action

variable (a b : UInt8) (machine : Machine) (sink : Sink)

theorem perform_ldi :
    machine.perform Handler.ldi a b sink =
      Effect.settle (Opcode.ldi.effect a b machine.store) machine sink := by
  unfold perform Handler.ldi Opcode.effect
  cases target : Register.ofByte a with
  | error fault =>
    simp only [EStateM.run_bind, run_setRegister_error target]
    rfl
  | ok register =>
    simp only [EStateM.run_bind, run_setRegister target]
    rfl

theorem perform_prn :
    machine.perform Handler.prn a b sink =
      Effect.settle (Opcode.prn.effect a b machine.store) machine sink := by
  unfold perform Handler.prn Opcode.effect
  cases source : Register.ofByte a with
  | error fault =>
    simp only [EStateM.run_bind, run_register_error source]
    rfl
  | ok register =>
    simp only [EStateM.run_bind, run_register source, ok_bind, Effect.settle, Effect.apply,
      Effect.print]
    cases printed : (sink.writeLine
        (Numeral.decimalDigits (machine.store.registers.get register).toNat)).2 with
    | ok _ =>
      simp only [run_printLine printed]
      rfl
    | error error => simp only [run_printLine_error printed]

theorem perform_push :
    machine.perform Handler.push a b sink =
      Effect.settle (Effect.push a machine.store) machine sink := by
  unfold perform Handler.push Effect.push
  cases source : Register.ofByte a with
  | error fault =>
    simp only [EStateM.run_bind, run_register_error source]
    rfl
  | ok register =>
    simp only [EStateM.run_bind, run_register source, run_sp, ok_bind]
    by_cases empty : machine.store.sp = 0
    · simp only [empty, if_true]
      rfl
    · simp only [empty, if_false, EStateM.run_bind, run_setSp, run_register source, run_sp,
        run_setCell]
      rfl

theorem perform_pop :
    machine.perform Handler.pop a b sink =
      Effect.settle (Effect.pop a machine.store) machine sink := by
  unfold perform Handler.pop Effect.pop
  cases target : Register.ofByte a with
  | error fault =>
    simp only [EStateM.run_bind, run_register_error target]
    rfl
  | ok register =>
    simp only [EStateM.run_bind, run_register target, run_sp, run_cell, ok_bind,
      Register.eq_seven_iff target]
    generalize (if register = .sp then machine.store.memory.get machine.store.sp
      else machine.store.sp) = base
    by_cases full : base = 255
    · simp only [full, if_true]
      rfl
    · simp only [full, if_false, EStateM.run_bind, run_setRegister target, run_setSp]
      rfl

theorem perform_binary (f : UInt8 → UInt8 → UInt8) :
    machine.perform (Handler.binary f) a b sink =
      Effect.settle (Effect.binary f a b machine.store) machine sink := by
  unfold perform Handler.binary Effect.binary
  cases source : Register.ofByte b with
  | error fault =>
    simp only [EStateM.run_bind, run_register_error source]
    rfl
  | ok right =>
    simp only [EStateM.run_bind, run_register source, ok_bind]
    cases target : Register.ofByte a with
    | error fault =>
      simp only [run_register_error target]
      rfl
    | ok left =>
      simp only [run_register target, run_setRegister target]
      rfl

theorem perform_unary (f : UInt8 → UInt8) :
    machine.perform (Handler.unary f) a b sink =
      Effect.settle (Effect.unary f a machine.store) machine sink := by
  unfold perform Handler.unary Effect.unary
  cases target : Register.ofByte a with
  | error fault =>
    simp only [EStateM.run_bind, run_register_error target]
    rfl
  | ok register =>
    simp only [EStateM.run_bind, run_register target, run_setRegister target]
    rfl

/-- Working through a handler comes to the effect of its instruction. -/
theorem perform_handler (opcode : Opcode) :
    machine.perform opcode.handler a b sink =
      Effect.settle (opcode.effect a b machine.store) machine sink := by
  cases opcode with
  | hlt => rfl
  | ldi => exact perform_ldi a b machine sink
  | prn => exact perform_prn a b machine sink
  | push => exact perform_push a b machine sink
  | pop => exact perform_pop a b machine sink
  | add => exact perform_binary a b machine sink _
  | sub => exact perform_binary a b machine sink _
  | mul => exact perform_binary a b machine sink _
  | inc => exact perform_unary a b machine sink _
  | dec => exact perform_unary a b machine sink _

end Machine

end ByteMachine
