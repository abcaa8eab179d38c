import Mathlib.Control.Monad.Basic
import Mathlib.Data.List.GetD
import ByteMachine.Proofs.History

/-!
# Runs and listings

The listing of a program image beside a run of the image. The listing is made
from the image once; the run reads memory, where zeros follow the image and
where PUSH may write. As long as no PUSH stores into the part of the image that
is still to come, and the listing shows no data, both go through the same
instructions. They part at a line of data, which the machine cannot execute
either, unless it is an instruction that the end of the image cuts off.
-/

namespace ByteMachine

/-! ## Lines and addresses -/

namespace Listing

/-- The address of line number `k` of the listing of `image`, or the end of the
image if it has no such line. -/
def addressOf (image : List UInt8) (k : Nat) : Nat :=
  match (listing image image.length)[k]? with
  | some line => line.address
  | none => image.length

/-- None of the first `k` lines of the listing of `image` shows data. -/
def CodeUpTo (image : List UInt8) (k : Nat) : Prop :=
  ∀ i < k, ∀ line, (listing image image.length)[i]? = some line → ∀ byte, line.item ≠ .data byte

/-- From line number `k` on, the listing shows what stands from `address` on. -/
structure ResumesAt (image : List UInt8) (k address : Nat) : Prop where
  within : address ≤ image.length
  rest : (listing image image.length).drop k =
    listingFrom address image.length (image.drop address)

variable {image : List UInt8} {k address : Nat} {line : Line}

theorem resumesAt_zero (image : List UInt8) : ResumesAt image 0 0 :=
  ⟨Nat.zero_le _, rfl⟩

/-- Where the listing resumes before the end, there is a line, and it resumes
behind that line. -/
theorem ResumesAt.of_lt (resumes : ResumesAt image k address) (inside : address < image.length) :
    ∃ item, Item.decode? (image.drop address) = some item ∧
      (listing image image.length)[k]? = some ⟨address, item⟩ ∧
      (listing image image.length).drop (k + 1) =
        listingFrom (address + item.length) image.length (image.drop (address + item.length)) := by
  have some : image.drop address ≠ [] := by
    intro none
    have := List.drop_eq_nil_iff.mp none
    omega
  obtain ⟨item, decoded⟩ := Item.exists_decode? some
  have rest := resumes.rest
  rw [listingFrom_of_lt inside decoded, List.drop_drop] at rest
  refine ⟨item, decoded, ?_, ?_⟩
  · have first := congrArg (·[0]?) rest
    simpa using first
  · have second := congrArg List.tail rest
    simpa using second

theorem ResumesAt.addressOf_eq (resumes : ResumesAt image k address) :
    addressOf image k = address := by
  unfold addressOf
  rcases Nat.lt_or_ge address image.length with inside | outside
  · obtain ⟨item, -, line, -⟩ := resumes.of_lt inside
    rw [line]
  · have none : (listing image image.length)[k]? = none := by
      rw [← List.head?_drop, resumes.rest, listingFrom_of_ge outside]
      rfl
    rw [none]
    exact Nat.le_antisymm outside resumes.within

/-- A line shows the item at its address, and the listing goes on behind it. -/
theorem ResumesAt.of_line (resumes : ResumesAt image k address)
    (shown : (listing image image.length)[k]? = some line) :
    address < image.length ∧ line.address = address ∧
      Item.decode? (image.drop address) = some line.item ∧
      ResumesAt image (k + 1) (address + line.item.length) := by
  rcases Nat.lt_or_ge address image.length with inside | outside
  · obtain ⟨item, decoded, first, rest⟩ := resumes.of_lt inside
    rw [first] at shown
    cases shown
    have whole := congrArg List.length (Item.eq_append_of_decode? decoded)
    rw [List.length_append, List.length_drop, ← Item.length] at whole
    refine ⟨inside, rfl, decoded, ⟨?_, rest⟩⟩
    dsimp only
    omega
  · rw [← List.head?_drop, resumes.rest, listingFrom_of_ge outside] at shown
    cases shown

end Listing

namespace Machine

variable {machine : Machine} {sink : Sink} {k : Nat}

/-! ## Programs in a fresh machine -/

/-- A fresh machine into which `image` was loaded. -/
def fresh (image : List UInt8) (tracing : Bool) : Machine :=
  (({ tracing } : Machine).load image .unlimited).machine

variable {image : List UInt8} {tracing : Bool}

/-- Behind the image there are zeros. -/
theorem toList_fresh (fits : image.length ≤ 256) (tracing : Bool) :
    (fresh image tracing).store.memory.toList =
      image ++ Memory.blank.toList.drop image.length :=
  toList_load fits { tracing } .unlimited

theorem cell?_fresh (fits : image.length ≤ 256) {address : Nat} (inside : address < image.length) :
    (fresh image tracing).store.memory.cell? address = image[address]? := by
  rw [← Memory.getElem?_toList, toList_fresh fits]
  exact List.getElem?_append_left inside

theorem cell?_fresh_end (short : image.length < 256) :
    (fresh image tracing).store.memory.cell? image.length = some 0 := by
  rw [← Memory.getElem?_toList, toList_fresh (Nat.le_of_lt short),
    List.getElem?_append_right (Nat.le_refl _), List.getElem?_drop, Nat.sub_self, Nat.add_zero,
    Memory.getElem?_toList]
  exact Memory.cell?_blank short

theorem fresh_running (image : List UInt8) (tracing : Bool) :
    (fresh image tracing).status = .running := by
  unfold fresh load
  split
  · rfl
  · rfl

theorem pc_fresh (image : List UInt8) (tracing : Bool) : (fresh image tracing).pc = 0 := by
  unfold fresh load
  split
  · rfl
  · rfl

/-! ## Steps at a line -/

/-- From the program counter up to the end of `image`, memory is as in `image`. -/
def ShowsAhead (machine : Machine) (image : List UInt8) : Prop :=
  ∀ address, machine.pc ≤ address → address < image.length →
    machine.store.memory.cell? address = image[address]?

variable {item : Item} {opcode : Opcode} {operands : List UInt8}

theorem cell?_of_listed (ahead : machine.ShowsAhead image)
    (decoded : Item.decode? (image.drop machine.pc) = some item) {i : Nat}
    (inside : i < item.length) :
    machine.store.memory.cell? (machine.pc + i) = item.bytes[i]? := by
  have whole := congrArg List.length (Item.eq_append_of_decode? decoded)
  rw [List.length_append, List.length_drop, ← Item.length] at whole
  rw [ahead (machine.pc + i) (Nat.le_add_right _ _) (by omega), ← List.getElem?_drop]
  exact Item.getElem?_of_decode? decoded inside

/-- An instruction that is listed stands in memory, with the operands shown. -/
theorem holds_of_listed (ahead : machine.ShowsAhead image)
    (decoded : Item.decode? (image.drop machine.pc) = some (.instruction opcode operands)) :
    machine.Holds opcode (operands.getD 0 0) (operands.getD 1 0) := by
  have count := Item.length_operands decoded
  have operand : ∀ i, machine.HoldsOperand opcode (i + 1) (operands.getD i 0) := by
    intro i
    unfold HoldsOperand
    split
    · rename_i asked
      have shown : i < operands.length := by omega
      rw [cell?_of_listed ahead decoded (Nat.succ_lt_succ shown)]
      exact (List.getElem?_eq_getElem shown).trans (by rw [List.getD_eq_getElem _ _ shown])
    · rename_i missing
      exact List.getD_eq_default _ _ (by omega)
  refine ⟨?_, operand 0, operand 1⟩
  exact cell?_of_listed ahead decoded (Item.length_pos _)

/-- It stands there with the rest of memory behind it, which does not change how
it is shown. -/
theorem itemAt?_of_listed (ahead : machine.ShowsAhead image)
    (decoded : Item.decode? (image.drop machine.pc) = some (.instruction opcode operands)) :
    itemAt? machine.store.memory.toList machine.pc = some (.instruction opcode operands) := by
  generalize cells_eq : machine.store.memory.toList.drop machine.pc = cells
  have start : cells.take (Item.instruction opcode operands).length =
      (Item.instruction opcode operands).bytes := by
    apply List.ext_getElem?
    intro i
    rcases Nat.lt_or_ge i (Item.instruction opcode operands).length with inside | outside
    · rw [List.getElem?_take_of_lt inside, ← cells_eq, List.getElem?_drop,
        Memory.getElem?_toList, cell?_of_listed ahead decoded inside]
    · rw [List.getElem?_eq_none (Nat.le_trans (List.length_take_le _ _) outside),
        List.getElem?_eq_none outside]
  unfold itemAt?
  rw [cells_eq, ← List.take_append_drop (Item.instruction opcode operands).length cells, start]
  exact Item.decode?_instruction (Item.length_operands decoded) _

theorem pc_of_listed_step (ahead : machine.ShowsAhead image)
    (decoded : Item.decode? (image.drop machine.pc) = some (.instruction opcode operands))
    (goesOn : (machine.step sink).result = .ok .running) :
    (machine.step sink).machine.pc = machine.pc + (Item.instruction opcode operands).length := by
  obtain ⟨opcode', a, b, effect, holds, -, -, after, -⟩ := step_of_running goesOn
  obtain ⟨rfl, -, -⟩ := holds.unique (holds_of_listed ahead decoded)
  rw [after, ← Item.length_operands decoded]
  rfl

/-! ## The run beside the listing -/

/-- None of the first `k` steps is a PUSH that stores into the part of the image
that is still to come. -/
def SparesCode (machine : Machine) (sink : Sink) (image : List UInt8) (k : Nat) : Prop :=
  ∀ i < k, ∀ address, (machine.moment sink i).1.PushesTo address →
    ¬ ((machine.moment sink i).1.pc ≤ address ∧ address < image.length)

theorem showsAhead_moment (fits : image.length ≤ 256)
    (reaches : (fresh image tracing).Reaches sink k)
    (spares : (fresh image tracing).SparesCode sink image k) :
    ((fresh image tracing).moment sink k).1.ShowsAhead image := by
  intro address behind inside
  have spared : ∀ i < k, ¬ ((fresh image tracing).moment sink i).1.PushesTo address := by
    intro i before hit
    have reached := reaches.pc_mono (Nat.le_of_lt before)
    exact spares i before address hit ⟨Nat.le_trans reached behind, inside⟩
  rw [reaches.cell?_eq spared, cell?_fresh fits inside]

/-- Before every step, the listing resumes at the program counter. -/
theorem resumesAt_moment (fits : image.length ≤ 256)
    (reaches : (fresh image tracing).Reaches sink k)
    (spares : (fresh image tracing).SparesCode sink image k)
    (enough : k ≤ (listing image image.length).length)
    (code : Listing.CodeUpTo image k) :
    Listing.ResumesAt image k ((fresh image tracing).moment sink k).1.pc := by
  induction k with
  | zero =>
    have start : ((fresh image tracing).moment sink 0).1.pc = 0 := pc_fresh image tracing
    rw [start]
    exact Listing.resumesAt_zero image
  | succ k ih =>
    have sparesBefore : (fresh image tracing).SparesCode sink image k :=
      fun i lt => spares i (Nat.lt_succ_of_lt lt)
    have codeBefore : Listing.CodeUpTo image k := fun i lt => code i (Nat.lt_succ_of_lt lt)
    have before := ih reaches.of_succ sparesBefore (Nat.le_of_succ_le enough) codeBefore
    -- line `k` is an instruction; memory still shows it, so step `k` moved behind just that line
    have shown := List.getElem?_eq_getElem enough
    obtain ⟨-, -, decoded, behind⟩ := before.of_line shown
    have ahead := showsAhead_moment fits reaches.of_succ sparesBefore
    have noData := code k (Nat.lt_succ_self k) _ shown
    cases item : (listing image image.length)[k].item with
    | data byte => exact absurd item (noData byte)
    | instruction opcode operands =>
      rw [item] at decoded behind
      rw [moment_succ]
      have moved := pc_of_listed_step ahead decoded reaches.last
      exact moved ▸ behind

/-! ## What the listing tells -/

/-- The step of the machine is at `line`, carries out what is shown there and
goes on to the address `next`, if it goes on. -/
structure FollowsLine (machine : Machine) (sink : Sink) (line : Listing.Line) (next : Nat) :
    Prop where
  here : machine.pc = line.address
  fetches : ∀ opcode operands, line.item = .instruction opcode operands →
    machine.fetch = .ok
      { handler := opcode.handler
        a := operands.getD 0 0
        b := operands.getD 1 0
        length := operands.length + 1 }
  logs : ∀ opcode operands, line.item = .instruction opcode operands →
    (machine.step sink).log.head? = some (.dispatched line.address (some line.item))
  goesOn : ∀ opcode operands, line.item = .instruction opcode operands →
    (machine.step sink).result = .ok .running → (machine.step sink).machine.pc = next
  unknown : ∀ byte, line.item = .data byte → (∀ opcode, Opcode.encode opcode ≠ byte) →
    (machine.step sink).result = .error (.unknownInstruction line.address byte)

/-- The step of the machine finds no instruction right behind the image. If the
image fills memory there is no cell, and otherwise a zero, provided that the
cell was `spared`. -/
structure FallsOff (machine : Machine) (sink : Sink) (image : List UInt8) (spared : Prop) :
    Prop where
  here : machine.pc = image.length
  full : image.length = 256 → (machine.step sink).result = .error (.addressOutOfBounds 256)
  short : image.length < 256 → spared →
    (machine.step sink).result = .error (.unknownInstruction image.length 0)

theorem log_of_holds (running : machine.status = .running) {a b : UInt8}
    (holds : machine.Holds opcode a b) (sink : Sink) :
    (machine.step sink).log.head? = some machine.dispatchRecord := by
  rw [step_of_holds running holds]
  rfl

theorem followsLine_of_resumesAt (running : machine.status = .running)
    (ahead : machine.ShowsAhead image) (resumes : Listing.ResumesAt image k machine.pc)
    {line : Listing.Line} (shown : (listing image image.length)[k]? = some line) (sink : Sink) :
    machine.FollowsLine sink line (Listing.addressOf image (k + 1)) := by
  obtain ⟨inside, address, decoded, behind⟩ := resumes.of_line shown
  refine ⟨address.symm, ?_, ?_, ?_, ?_⟩
  · intro opcode operands item
    rw [item] at decoded
    rw [fetch_of_holds (holds_of_listed ahead decoded), ← Item.length_operands decoded]
  · intro opcode operands item
    rw [item] at decoded ⊢
    rw [log_of_holds running (holds_of_listed ahead decoded), dispatchRecord,
      itemAt?_of_listed ahead decoded, address]
  · intro opcode operands item goesOn
    rw [item] at decoded behind
    rw [pc_of_listed_step ahead decoded goesOn, behind.addressOf_eq]
  · intro byte item unknown
    rw [item] at decoded
    have here := cell?_of_listed ahead decoded (Item.length_pos _)
    have missing := fetch_of_unknown here (Opcode.decode?_eq_none_iff.mpr unknown)
    rw [step_of_fetch_error running missing, address]

theorem fallsOff_of_resumesAt (running : machine.status = .running)
    (resumes : Listing.ResumesAt image k machine.pc)
    (used : (listing image image.length).length = k) {spared : Prop}
    (zero : image.length < 256 → spared →
      machine.store.memory.cell? image.length = some 0) (sink : Sink) :
    machine.FallsOff sink image spared := by
  have here : machine.pc = image.length := by
    rw [← resumes.addressOf_eq]
    unfold Listing.addressOf
    rw [List.getElem?_eq_none (Nat.le_of_eq used)]
  refine ⟨here, ?_, ?_⟩
  · intro full
    have outside : 256 ≤ machine.pc := by omega
    rw [step_of_fetch_error running (fetch_of_ge outside), here, full]
  · intro short spared
    have cell : machine.store.memory.cell? machine.pc = some 0 := by
      rw [here]
      exact zero short spared
    have missing := fetch_of_unknown cell (by decide)
    rw [step_of_fetch_error running missing, here]

/-- **Runs follow listings.** An image that was loaded into a fresh machine runs
along the lines of its listing: as long as the lines before show no data, and no
PUSH so far has stored into what was still to come, step number `k` is at line
number `k`, or behind the image if there are no more lines. -/
theorem run_follows_listing (fits : image.length ≤ 256)
    (reaches : (fresh image tracing).Reaches sink k)
    (spares : (fresh image tracing).SparesCode sink image k)
    (code : Listing.CodeUpTo image k) :
    let now := (fresh image tracing).moment sink k
    (∀ line, (listing image image.length)[k]? = some line →
      now.1.FollowsLine now.2 line (Listing.addressOf image (k + 1))) ∧
    ((listing image image.length).length = k →
      now.1.FallsOff now.2 image
        (∀ i < k, ¬ ((fresh image tracing).moment sink i).1.PushesTo image.length)) := by
  intro now
  have running : now.1.status = .running :=
    reaches.status_eq.trans (fresh_running image tracing)
  refine ⟨?_, ?_⟩
  · intro line shown
    have enough := (List.getElem?_eq_some_iff.mp shown).1
    have resumes := resumesAt_moment fits reaches spares (Nat.le_of_lt enough) code
    exact followsLine_of_resumesAt running (showsAhead_moment fits reaches spares) resumes shown _
  · intro used
    have resumes := resumesAt_moment fits reaches spares (Nat.le_of_eq used.symm) code
    refine fallsOff_of_resumesAt running resumes used ?_ _
    intro short spared
    rw [reaches.cell?_eq spared]
    exact cell?_fresh_end short

/-- Behind a PUSH onto an empty stack, which stores far behind the image. -/
theorem run_follows_listing_push_hlt :
    let now := (fresh [0x45, 0x00, 0x01] false).moment .unlimited 1
    now.1.pc = 2 ∧ now.1.fetch = .ok { handler := Handler.hlt, length := 1 } := by
  have reaches : (fresh [0x45, 0x00, 0x01] false).Reaches .unlimited 1 := by
    unfold Reaches
    decide +kernel
  have spares : (fresh [0x45, 0x00, 0x01] false).SparesCode .unlimited [0x45, 0x00, 0x01] 1 := by
    rintro i first address ⟨-, rfl⟩
    obtain rfl := Nat.lt_one_iff.mp first
    decide +kernel
  have code : Listing.CodeUpTo [0x45, 0x00, 0x01] 1 := by
    intro i first line shown byte
    obtain rfl := Nat.lt_one_iff.mp first
    have push : (listing [0x45, 0x00, 0x01] 3)[0]? = some ⟨0, .instruction .push [0x00]⟩ := by
      decide +kernel
    cases push.symm.trans shown
    nofun
  obtain ⟨lines, -⟩ := run_follows_listing (by decide) reaches spares code
  have line := lines ⟨2, .instruction .hlt []⟩ (by decide +kernel)
  exact ⟨line.here, line.fetches .hlt [] rfl⟩

end Machine

end ByteMachine
