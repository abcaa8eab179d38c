import ByteMachine.Proofs.ListedRun
import ByteMachine.Proofs.Tiling

/-!
# Room for the stack

A program that leaves the stack pointer to PUSH and POP moves it down by one cell for
each PUSH and up by one for each POP. No PUSH of the listing is carried out twice, so if
the image and a cell for each of them fit below the start of the stack, the stack does
not come down to the image. Both need each other: what is carried out is what the listing
shows only as long as the stack has not reached it (`stack_spares_image`).
-/

namespace ByteMachine

/-! ## Counting -/

section

variable {α : Type} (p : α → Bool)

/-- One element counts for one or for nothing. -/
theorem countP_singleton_eq_toNat (x : α) : [x].countP p = (p x).toNat := by
  rw [List.countP_singleton]
  cases p x with
  | true => rfl
  | false => rfl

theorem countP_take_succ {xs : List α} {x : α} {n : Nat} (next : xs[n]? = some x) :
    (xs.take (n + 1)).countP p = (xs.take n).countP p + (p x).toNat := by
  rw [List.take_add_one, next, List.countP_append, ← countP_singleton_eq_toNat]
  rfl

end

/-! ## What moves the stack pointer -/

/-- The instructions that replace the register which their first operand names. -/
def Opcode.hasDestination : Opcode → Bool
  | ldi | pop | add | sub | mul | inc | dec => true
  | hlt | prn | push => false

theorem Store.sp_setRegister_other (store : Store) {r : Register} (other : r ≠ .sp)
    (value : UInt8) : (store.setRegister r value).sp = store.sp :=
  store.registers.get_set_other other value

theorem toNat_sub_one {x : UInt8} (h : x ≠ 0) : (x - 1).toNat + 1 = x.toNat := by
  have some : x.toNat ≠ 0 := fun none => h (UInt8.toNat_inj.mp none)
  have := x.toNat_lt
  rw [UInt8.toNat_sub, UInt8.toNat_one]
  omega

theorem toNat_add_one {x : UInt8} (h : x ≠ 255) : (x + 1).toNat = x.toNat + 1 := by
  have below : x.toNat ≠ 255 := fun top => h (UInt8.toNat_inj.mp top)
  have := x.toNat_lt
  rw [UInt8.toNat_add, UInt8.toNat_one]
  omega

namespace Row

variable {store : Store} {a b : UInt8} {opcode : Opcode} {effect : Effect}

/-- PUSH moves the stack pointer down and POP moves it up, without wrapping. The others
leave it where it is unless it is their destination. -/
theorem sp (row : Row store a b opcode (.ok effect))
    (other : opcode.hasDestination = true → a ≠ 7) :
    effect.store.sp.toNat + (opcode == .push).toNat =
      store.sp.toNat + (opcode == .pop).toNat := by
  have ne_sp {r : Register} (names : Names a r) (writes : opcode.hasDestination = true) :
      r ≠ .sp :=
    fun eq => other writes ((Register.eq_seven_iff (names_iff.mp names)).mpr eq)
  cases row with
  | hlt | prn => rfl
  | ldi names => rw [Store.sp_setRegister_other store (ne_sp names rfl)]; rfl
  | push _ _ room | pushSp _ room =>
    change (store.setSp (store.sp - 1)).sp.toNat + 1 = store.sp.toNat
    rw [Store.sp_setSp, toNat_sub_one room]
  | pop _ _ room =>
    change (Store.setSp _ (store.sp + 1)).sp.toNat = store.sp.toNat + 1
    rw [Store.sp_setSp, toNat_add_one room]
  | popSp names => exact absurd rfl (ne_sp names rfl)
  | ofTwo two names =>
    cases opcode with
    | add | sub | mul => rw [Store.sp_setRegister_other store (ne_sp names rfl)]; rfl
    | _ => cases two
  | ofOne one names =>
    cases opcode with
    | inc | dec => rw [Store.sp_setRegister_other store (ne_sp names rfl)]; rfl
    | _ => cases one

/-- PUSH fails for the lack of a cell only where the stack has used up memory. -/
theorem sp_eq_zero {sp : UInt8} (row : Row store a b opcode (.error (.stackOutOfBounds .push sp))) :
    opcode = .push ∧ store.sp = 0 := by
  cases row with
  | pushAtEnd _ ends => exact ⟨rfl, ends⟩

end Row

namespace Machine

variable {machine : Machine} {sink : Sink} {opcode : Opcode} {a b : UInt8} {address : Nat}

/-! ## One step -/

/-- The instruction at the program counter, whole or cut off. -/
def opcode? (machine : Machine) : Option Opcode :=
  (machine.store.memory.cell? machine.pc).bind Opcode.decode?

theorem opcode?_of_holds (holds : machine.Holds opcode a b) : machine.opcode? = some opcode := by
  rw [opcode?, holds.here, Option.bind_some, Opcode.decode?_encode]

/-- The step of the machine carries out an `opcode`. -/
def performs (machine : Machine) (sink : Sink) (opcode : Opcode) : Bool :=
  machine.opcode? == some opcode && (machine.step sink).result.isOk

/-- Only a PUSH changes memory, in the one cell that it stores into. -/
theorem cell?_step (running : machine.status = .running) (spared : ¬ machine.PushesTo address) :
    (machine.step sink).machine.store.memory.cell? address =
      machine.store.memory.cell? address := by
  have carried {opcode : Opcode} {a b : UInt8} {effect : Effect}
      (holds : machine.Holds opcode a b)
      (effect_eq : opcode.effect a b machine.store = .ok effect) :
      effect.store.memory.cell? address = machine.store.memory.cell? address := by
    rcases (row_iff.mpr effect_eq).memory with same | ⟨rfl, value, stored⟩
    · rw [same]
    · have other : (machine.store.sp - 1).toNat ≠ address := fun hit => spared ⟨⟨a, b, holds⟩, hit⟩
      rw [stored, Memory.cell?_set_other _ other]
  have case := step_case running sink
  generalize machine.step sink = outcome at case ⊢
  cases case with
  | unfetched | refused | unprinted => rfl
  | next holds effect_eq | halt holds effect_eq => exact carried holds effect_eq

/-- What a step does to the stack pointer, told from what it carries out. -/
theorem sp_step (running : machine.status = .running) (holds : machine.Holds opcode a b)
    (other : opcode.hasDestination = true → a ≠ 7) (sink : Sink) :
    (machine.step sink).machine.store.sp.toNat + (machine.performs sink .push).toNat =
      machine.store.sp.toNat + (machine.performs sink .pop).toNat := by
  unfold performs
  rw [opcode?_of_holds holds]
  have case := step_case running sink
  generalize machine.step sink = outcome at case ⊢
  cases case with
  | unfetched | refused | unprinted => simp [Except.isOk, Except.toBool]
  | next again effect_eq | halt again effect_eq =>
    obtain ⟨rfl, rfl, rfl⟩ := again.unique holds
    simpa [Except.isOk, Except.toBool] using (row_iff.mpr effect_eq).sp other

/-- A step lacks a cell to push to only at a PUSH on a stack that has used up memory. -/
theorem sp_eq_zero_of_step {sp : UInt8} (running : machine.status = .running)
    (fails : (machine.step sink).result = .error (.stackOutOfBounds .push sp)) :
    (∃ a b, machine.Holds .push a b) ∧ machine.store.sp = 0 := by
  have case := step_case running sink
  generalize machine.step sink = outcome at case fails
  cases case with
  | unfetched missing =>
    cases fails
    rcases fetch_eq_error missing with ⟨_, eq⟩ | ⟨_, eq⟩ <;> cases eq
  | refused holds refusal =>
    cases fails
    obtain ⟨rfl, ends⟩ := (row_iff.mpr refusal).sp_eq_zero
    exact ⟨⟨_, _, holds⟩, ends⟩
  | unprinted | next | halt => cases fails

end Machine

/-! ## What a listing counts -/

/-- The instruction that an item shows. -/
def Item.opcode? : Item → Option Opcode
  | instruction opcode _ => some opcode
  | data _ => none

/-- The operand by which an item names the register that it replaces. -/
def Item.destination? : Item → Option UInt8
  | instruction opcode operands => if opcode.hasDestination then operands.head? else none
  | data _ => none

theorem Item.getD_ne_seven {opcode : Opcode} {operands : List UInt8}
    (other : (instruction opcode operands).destination? ≠ some 7)
    (writes : opcode.hasDestination = true) : operands.getD 0 0 ≠ 7 := by
  rw [destination?, if_pos writes] at other
  cases operands with
  | nil => decide
  | cons operand operands => exact fun seven => other (congrArg some seven)

namespace Listing

def Line.isPush (line : Line) : Bool :=
  line.item.opcode? == some .push

/-- The number of PUSH lines in the listing of `image`. -/
def pushes (image : List UInt8) : Nat :=
  (listing image image.length).countP Line.isPush

variable {image : List UInt8}

/-- A PUSH takes two bytes. -/
theorem Line.length_bytes_of_isPush {line : Line} {source : List UInt8}
    (decoded : Item.decode? source = some line.item) (push : line.isPush = true) :
    line.item.bytes.length = 2 := by
  unfold isPush Item.opcode? at push
  split at push
  · rename_i opcode operands item
    rw [item] at decoded
    obtain rfl : opcode = .push := by simpa using push
    rw [item, Item.bytes, List.length_cons, Item.length_operands decoded]
    rfl
  · cases push

theorem two_mul_countP_le {lines : List Line}
    (shown : ∀ line ∈ lines, line ∈ listing image image.length) :
    2 * lines.countP Line.isPush ≤ (lines.flatMap (·.item.bytes)).length := by
  induction lines with
  | nil => exact Nat.le_refl 0
  | cons line lines ih =>
    have rest := ih fun line mem => shown line (List.mem_cons_of_mem _ mem)
    have decoded := (itemAt?_of_mem (shown line List.mem_cons_self)).2
    rw [List.flatMap_cons, List.length_append, List.countP_cons]
    split
    · rename_i push
      rw [Line.length_bytes_of_isPush decoded push]
      omega
    · omega

theorem two_mul_pushes_le (image : List UInt8) : 2 * pushes image ≤ image.length := by
  have taken : 2 * pushes image ≤
      ((listing image image.length).flatMap (·.item.bytes)).length :=
    two_mul_countP_le fun _ mem => mem
  obtain ⟨count, joined, -⟩ := flatMap_listingFrom 0 image.length image
  rw [listing, joined] at taken
  exact Nat.le_trans taken (List.length_take_le' count image)

end Listing

namespace Machine

variable {machine : Machine} {sink : Sink} {image : List UInt8} {tracing : Bool} {n : Nat}

/-! ## Along a run -/

/-- How many of the first `n` steps carry out an `opcode`. -/
def performed (machine : Machine) (sink : Sink) (opcode : Opcode) (n : Nat) : Nat :=
  (List.range n).countP fun i =>
    (machine.moment sink i).1.performs (machine.moment sink i).2 opcode

theorem performed_succ (machine : Machine) (sink : Sink) (opcode : Opcode) (n : Nat) :
    machine.performed sink opcode (n + 1) = machine.performed sink opcode n +
      ((machine.moment sink n).1.performs (machine.moment sink n).2 opcode).toNat := by
  rw [performed, List.range_succ, List.countP_append, countP_singleton_eq_toNat]
  rfl

/-- The machine is inside the image, and at no line of its listing that shows data. -/
def AtCode (machine : Machine) (image : List UInt8) : Prop :=
  machine.pc < image.length ∧
    ∀ line ∈ listing image image.length, line.address = machine.pc → line.item.opcode?.isSome

/-- The image is as it was loaded, and the stack pointer has moved by as much as was
pushed and popped. -/
structure Intact (image : List UInt8) (pushed popped : Nat) (machine : Machine) : Prop where
  cells : ∀ address < image.length, machine.store.memory.cell? address = image[address]?
  balance : machine.store.sp.toNat + pushed = 244 + popped

theorem sp_fresh (image : List UInt8) (tracing : Bool) :
    (fresh image tracing).store.sp.toNat = 244 := by
  unfold fresh load
  split
  · rfl
  · rfl

/-- What is known before a step of a run along the listing of `image`. -/
structure Along (machine : Machine) (sink : Sink) (image : List UInt8) (n : Nat) : Prop where
  intact : Intact image (machine.performed sink .push n) (machine.performed sink .pop n)
    (machine.moment sink n).1
  resumes : Listing.ResumesAt image n (machine.moment sink n).1.pc
  counted : machine.performed sink .push n =
    ((listing image image.length).take n).countP Listing.Line.isPush

/-- The next line shows what stands in memory. -/
theorem Along.exists_holds (along : machine.Along sink image n)
    (code : (machine.moment sink n).1.AtCode image) :
    ∃ line opcode operands, (listing image image.length)[n]? = some line ∧
      line.item = .instruction opcode operands ∧
      (machine.moment sink n).1.Holds opcode (operands.getD 0 0) (operands.getD 1 0) ∧
      Listing.ResumesAt image (n + 1)
        ((machine.moment sink n).1.pc + (opcode.operandCount + 1)) := by
  obtain ⟨inside, noData⟩ := code
  have ahead : (machine.moment sink n).1.ShowsAhead image :=
    fun address _ => along.intact.cells address
  obtain ⟨item, -, shown, -⟩ := along.resumes.of_lt inside
  obtain ⟨-, -, decoded, behind⟩ := along.resumes.of_line shown
  have instruction := noData _ (List.mem_of_getElem? shown) rfl
  cases item with
  | data byte => cases instruction
  | instruction opcode operands =>
    rw [Item.length, Item.bytes, List.length_cons, Item.length_operands decoded] at behind
    exact ⟨_, opcode, operands, shown, rfl, holds_of_listed ahead decoded, behind⟩

/-- What a step at a line of the listing does to the image and the stack. -/
structure StepsClear (machine : Machine) (sink : Sink) (image : List UInt8) (n : Nat) : Prop where
  stores : ∀ address, (machine.moment sink n).1.PushesTo address → image.length ≤ address
  room : ∀ sp, (machine.stepAt sink n).result ≠ .error (.stackOutOfBounds .push sp)
  after : Intact image (machine.performed sink .push (n + 1)) (machine.performed sink .pop (n + 1))
    (machine.stepAt sink n).machine

section

variable (others : ∀ line ∈ listing image image.length, line.item.destination? ≠ some 7)
  (room : image.length + Listing.pushes image ≤ 244)

include room

/-- Before a PUSH there is room for it, as its line has not been counted yet. -/
theorem Along.lt_sp (along : machine.Along sink image n)
    (code : (machine.moment sink n).1.AtCode image)
    (push : ∃ a b, (machine.moment sink n).1.Holds .push a b) :
    image.length < (machine.moment sink n).1.store.sp.toNat := by
  obtain ⟨line, opcode, operands, shown, item, holds, -⟩ := along.exists_holds code
  obtain ⟨a, b, push⟩ := push
  obtain ⟨rfl, -, -⟩ := push.unique holds
  have isPush : line.isPush = true := by
    rw [Listing.Line.isPush, item]
    rfl
  have more := countP_take_succ Listing.Line.isPush shown
  rw [isPush, Bool.toNat_true] at more
  have most : ((listing image image.length).take (n + 1)).countP Listing.Line.isPush ≤
      Listing.pushes image :=
    (List.take_sublist _ _).countP_le
  have balance := along.intact.balance
  have counted := along.counted
  omega

theorem Along.sp_ne_zero (along : machine.Along sink image n)
    (code : (machine.moment sink n).1.AtCode image)
    (push : ∃ a b, (machine.moment sink n).1.Holds .push a b) :
    (machine.moment sink n).1.store.sp ≠ 0 := by
  intro zero
  have above := along.lt_sp room code push
  rw [zero] at above
  cases above

theorem Along.le_of_pushesTo (along : machine.Along sink image n)
    (code : (machine.moment sink n).1.AtCode image) {address : Nat}
    (stores : (machine.moment sink n).1.PushesTo address) : image.length ≤ address := by
  obtain ⟨push, rfl⟩ := stores
  have above := along.lt_sp room code push
  have lowered := toNat_sub_one (along.sp_ne_zero room code push)
  omega

include others

theorem Along.stepsClear (along : machine.Along sink image n)
    (running : (machine.moment sink n).1.status = .running)
    (code : (machine.moment sink n).1.AtCode image) : machine.StepsClear sink image n := by
  refine ⟨fun address stores => along.le_of_pushesTo room code stores, ?_, ⟨?_, ?_⟩⟩
  · intro sp fails
    obtain ⟨push, zero⟩ := sp_eq_zero_of_step running fails
    exact along.sp_ne_zero room code push zero
  · intro address inside
    have spared : ¬ (machine.moment sink n).1.PushesTo address :=
      fun hit => absurd (along.le_of_pushesTo room code hit) (Nat.not_le.mpr inside)
    rw [stepAt, cell?_step running spared, along.intact.cells address inside]
  · obtain ⟨line, opcode, operands, shown, item, holds, -⟩ := along.exists_holds code
    have differs := others line (List.mem_of_getElem? shown)
    rw [item] at differs
    have moved := sp_step running holds (Item.getD_ne_seven differs) (machine.moment sink n).2
    have balance := along.intact.balance
    rw [performed_succ, performed_succ, stepAt]
    omega

/-- A step that goes on moves to the next line. -/
theorem Along.succ (along : machine.Along sink image n)
    (running : (machine.moment sink n).1.status = .running)
    (code : (machine.moment sink n).1.AtCode image)
    (goesOn : (machine.stepAt sink n).result = .ok .running) :
    machine.Along sink image (n + 1) := by
  obtain ⟨line, opcode, operands, shown, item, holds, behind⟩ := along.exists_holds code
  refine ⟨(along.stepsClear others room running code).after, ?_, ?_⟩
  · obtain ⟨opcode', a, b, effect, again, -, -, after, -⟩ := step_of_running goesOn
    obtain ⟨rfl, -, -⟩ := again.unique holds
    rw [moment_succ, stepAt, after]
    exact behind
  · have performs : (machine.moment sink n).1.performs (machine.moment sink n).2 .push =
        line.isPush := by
      unfold performs Listing.Line.isPush
      rw [opcode?_of_holds holds, ← stepAt, goesOn, item]
      exact Bool.and_true _
    rw [performed_succ, performs, along.counted, countP_take_succ _ shown]

theorem along_fresh (reaches : (fresh image tracing).Reaches sink n)
    (code : ∀ i < n, ((fresh image tracing).moment sink i).1.AtCode image) :
    (fresh image tracing).Along sink image n := by
  induction n with
  | zero =>
    have fits : image.length ≤ 256 := by omega
    refine ⟨⟨fun address inside => cell?_fresh fits inside, sp_fresh image tracing⟩, ?_, rfl⟩
    have start : ((fresh image tracing).moment sink 0).1.pc = 0 := pc_fresh image tracing
    rw [start]
    exact Listing.resumesAt_zero image
  | succ n ih =>
    have along := ih reaches.of_succ fun i before => code i (Nat.lt_succ_of_lt before)
    have running := reaches.of_succ.status_eq.trans (fresh_running image tracing)
    exact along.succ others room running (code n (Nat.lt_succ_self n)) reaches.last

end

/-- **The stack does not reach short programs.** Let no line of the listing have the
stack pointer as its destination, and let the image and a cell for each PUSH fit below
the start of the stack, as they do if the image is short. As long as a run stands at
lines of the listing that show no data, memory keeps the image, PUSH stores behind it
and never lacks a cell, and the stack pointer tells how much more was pushed than
popped. -/
theorem stack_spares_image (image : List UInt8) :
    (image.length ≤ 163 → image.length + Listing.pushes image ≤ 244) ∧
    (image.length + Listing.pushes image ≤ 244 →
      (∀ line ∈ listing image image.length, line.item.destination? ≠ some 7) →
      ∀ tracing sink n,
      (fresh image tracing).Reaches sink n →
      (∀ i < n, ((fresh image tracing).moment sink i).1.AtCode image) →
      let run := fresh image tracing
      Intact image (run.performed sink .push n) (run.performed sink .pop n)
        (run.moment sink n).1 ∧
      ((run.moment sink n).1.AtCode image → run.StepsClear sink image n)) := by
  refine ⟨?_, ?_⟩
  · intro short
    have half := Listing.two_mul_pushes_le image
    omega
  · intro room others tracing sink n reaches code run
    have along := along_fresh others room reaches code
    have running := reaches.status_eq.trans (fresh_running image tracing)
    exact ⟨along.intact, fun here => along.stepsClear others room running here⟩

/-- A PUSH and a POP have been carried out, and HLT is next. -/
theorem stack_spares_image_push_pop :
    (fresh [0x45, 0x00, 0x46, 0x01, 0x01] false).StepsClear .unlimited
      [0x45, 0x00, 0x46, 0x01, 0x01] 2 := by
  have others : ∀ line ∈ listing [0x45, 0x00, 0x46, 0x01, 0x01] 5,
      line.item.destination? ≠ some 7 := by
    decide +kernel
  have reaches : (fresh [0x45, 0x00, 0x46, 0x01, 0x01] false).Reaches .unlimited 2 := by
    unfold Reaches
    decide +kernel
  have code : ∀ i < 3, ((fresh [0x45, 0x00, 0x46, 0x01, 0x01] false).moment .unlimited i).1.AtCode
      [0x45, 0x00, 0x46, 0x01, 0x01] := by
    unfold AtCode
    decide +kernel
  obtain ⟨short, clear⟩ := stack_spares_image [0x45, 0x00, 0x46, 0x01, 0x01]
  obtain ⟨-, steps⟩ := clear (short (by decide)) others false .unlimited 2 reaches
    fun i before => code i (Nat.lt_succ_of_lt before)
  exact steps (code 2 (by decide))

end Machine

end ByteMachine
