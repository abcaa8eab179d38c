import ByteMachine.Proofs.ListedRun
import ByteMachine.Proofs.Tiling

/-!
# Images in memory

The listing of an image, beside the listing of the part of memory that holds it. Decoding
looks ahead, so what comes behind the image can be seen in one case: the last instruction
of the image may take its operands from there. Without them it is a data byte, and the
byte behind it is decoded by itself. Up to that instruction, and if there is none, the two
listings are the same (`image_is_listed_alone`).
-/

namespace ByteMachine

/-! ## Items with more bytes behind them -/

namespace Item

variable {front behind source : List UInt8} {item : Item} {opcode : Opcode}

/-- An item that is whole without the bytes behind it does not depend on them. -/
theorem decode?_of_append (decoded : decode? (front ++ behind) = some item)
    (whole : item.length ≤ front.length) : decode? front = some item := by
  cases front with
  | nil => exact absurd item.length_pos (Nat.not_lt.mpr whole)
  | cons byte rest =>
    rw [List.cons_append] at decoded
    unfold decode? at decoded ⊢
    cases known : Opcode.decode? byte with
    | none =>
      simp only [known] at decoded ⊢
      exact decoded
    | some opcode =>
      simp only [known] at decoded ⊢
      split at decoded
      · cases decoded
        have short : opcode.operandCount ≤ rest.length := by
          simp only [length, bytes, List.length_cons, List.length_take] at whole
          omega
        rw [if_pos short, List.take_append_of_le_length short]
      · rename_i cut
        rw [List.length_append] at cut
        rw [if_neg (by omega)]
        exact decoded

/-- An item that needs the bytes behind it is an instruction, and a data byte without them. -/
theorem decode?_of_cut_off (decoded : decode? (front ++ behind) = some item) (some : front ≠ [])
    (cut : front.length < item.length) :
    ∃ opcode operands, item = instruction opcode operands ∧
      decode? front = Option.some (data opcode.encode) := by
  obtain ⟨byte, rest, rfl⟩ := List.exists_cons_of_ne_nil some
  cases item with
  | data byte =>
    simp only [length, bytes, List.length_cons, List.length_nil] at cut
    omega
  | instruction opcode operands =>
    refine ⟨opcode, operands, rfl, ?_⟩
    have first := getElem?_of_decode? decoded (length_pos _)
    obtain rfl : byte = opcode.encode := Option.some.inj first
    have short : ¬ opcode.operandCount ≤ rest.length := by
      rw [length_of_decode? decoded, List.length_cons] at cut
      omega
    unfold decode?
    dsimp only
    rw [Opcode.decode?_encode]
    exact if_neg short

/-- An instruction is decoded where all of its operands are there. -/
theorem exists_decode?_instruction (here : source[0]? = some opcode.encode)
    (whole : opcode.operandCount < source.length) :
    ∃ operands, decode? source = some (instruction opcode operands) := by
  cases source with
  | nil => cases here
  | cons byte rest =>
    obtain rfl : byte = opcode.encode := Option.some.inj here
    unfold decode?
    dsimp only
    rw [Opcode.decode?_encode]
    exact ⟨_, if_pos (Nat.le_of_lt_succ whole)⟩

end Item

namespace Listing

variable {address limit offset place : Nat} {front behind image : List UInt8}
  {shared rest : List Line} {opcode : Opcode} {operands : List UInt8}

/-! ## Where the listings part -/

/-- The listing of `front` and that of as many bytes of `front ++ behind`, where `front` begins
at `address`, have the lines `shared` in common, and go on with an instruction that `front`
cuts off. -/
structure PartsFrom (address limit : Nat) (front behind : List UInt8) (shared : List Line)
    (offset : Nat) (opcode : Opcode) (operands : List UInt8) : Prop where
  inside : offset < front.length
  decoded : Item.decode? ((front ++ behind).drop offset) = some (.instruction opcode operands)
  crosses : front.length ≤ offset + opcode.operandCount
  before : ∀ line ∈ shared, line.address + line.item.length ≤ address + offset
  longer : listingFrom address limit (front ++ behind) =
    shared ++ [⟨address + offset, .instruction opcode operands⟩]
  alone : listingFrom address limit front =
    shared ++ ⟨address + offset, .data opcode.encode⟩ ::
      listingFrom (address + offset + 1) limit (front.drop (offset + 1))

/-- The listings are the same, with all instructions whole. -/
structure SameFrom (address limit : Nat) (front behind : List UInt8) : Prop where
  same : listingFrom address limit front = listingFrom address limit (front ++ behind)
  whole : ∀ line ∈ listingFrom address limit (front ++ behind),
    line.address + line.item.length ≤ limit

theorem SameFrom.cons {item : Item} (inside : address < limit)
    (decoded : Item.decode? (front ++ behind) = some item)
    (decodedAlone : Item.decode? front = some item) (ends : limit = address + front.length)
    (later : SameFrom (address + item.length) limit (front.drop item.length) behind) :
    SameFrom address limit front behind := by
  have fits := Item.length_le decodedAlone
  have next : (front ++ behind).drop item.length = front.drop item.length ++ behind :=
    List.drop_append_of_le_length fits
  refine ⟨?_, ?_⟩
  · rw [listingFrom_of_lt inside decodedAlone, listingFrom_of_lt inside decoded, next, later.same]
  · rw [listingFrom_of_lt inside decoded, next]
    intro line shown
    rcases List.mem_cons.mp shown with rfl | shown
    · dsimp only
      omega
    · exact later.whole line shown

theorem PartsFrom.cons {item : Item} (inside : address < limit)
    (decoded : Item.decode? (front ++ behind) = some item)
    (decodedAlone : Item.decode? front = some item)
    (later : PartsFrom (address + item.length) limit (front.drop item.length) behind shared offset
      opcode operands) :
    PartsFrom address limit front behind (⟨address, item⟩ :: shared) (item.length + offset)
      opcode operands := by
  have fits := Item.length_le decodedAlone
  have next : (front ++ behind).drop item.length = front.drop item.length ++ behind :=
    List.drop_append_of_le_length fits
  have inside' := later.inside
  have crosses := later.crosses
  rw [List.length_drop] at inside' crosses
  refine ⟨by omega, ?_, by omega, ?_, ?_, ?_⟩
  · rw [← List.drop_drop, next]
    exact later.decoded
  · intro line shown
    rcases List.mem_cons.mp shown with rfl | shown
    · dsimp only
      omega
    · have := later.before line shown
      omega
  · rw [listingFrom_of_lt inside decoded, next, later.longer, Nat.add_assoc]
    rfl
  · rw [listingFrom_of_lt inside decodedAlone, later.alone, List.drop_drop, Nat.add_assoc,
      Nat.add_assoc item.length]
    rfl

theorem partsFrom_of_cut_off {item : Item} (inside : address < limit)
    (decoded : Item.decode? (front ++ behind) = some item) (some : front ≠ [])
    (ends : limit = address + front.length) (cut : front.length < item.length) :
    ∃ opcode operands, PartsFrom address limit front behind [] 0 opcode operands := by
  obtain ⟨opcode, operands, rfl, alone⟩ := Item.decode?_of_cut_off decoded some cut
  have length := Item.length_of_decode? decoded
  refine ⟨opcode, operands, List.length_pos_iff.mpr some, decoded, by omega, nofun, ?_, ?_⟩
  · rw [listingFrom_of_lt inside decoded, listingFrom_of_ge (by omega)]
    rfl
  · rw [listingFrom_of_lt inside alone]
    rfl

/-- As long as items are whole without the bytes behind, both listings show them. -/
theorem sameFrom_or_partsFrom (behind : List UInt8) (ends : limit = address + front.length) :
    SameFrom address limit front behind ∨
      ∃ shared offset opcode operands,
        PartsFrom address limit front behind shared offset opcode operands := by
  -- each item that both listings show leaves fewer bytes of `front`
  induction size : front.length using Nat.strongRecOn generalizing address front with
  | ind size ih =>
    subst size
    by_cases some : front = []
    · subst some
      have outside : limit ≤ address := Nat.le_of_eq ends
      refine .inl ⟨?_, ?_⟩
      · rw [listingFrom_of_ge outside, listingFrom_of_ge outside]
      · rw [listingFrom_of_ge outside]
        nofun
    · have nonempty := List.length_pos_iff.mpr some
      have inside : address < limit := by omega
      obtain ⟨item, decoded⟩ := Item.exists_decode? (List.append_ne_nil_of_left_ne_nil some behind)
      rcases Nat.lt_or_ge front.length item.length with cut | whole
      · exact .inr ⟨[], 0, partsFrom_of_cut_off inside decoded some ends cut⟩
      · have alone := Item.decode?_of_append decoded whole
        have positive := item.length_pos
        have shorter : (front.drop item.length).length < front.length := by
          rw [List.length_drop]
          omega
        have ends' : limit = address + item.length + (front.drop item.length).length := by
          rw [List.length_drop]
          omega
        rcases ih _ shorter ends' rfl with same | ⟨shared, offset, opcode, operands, parts⟩
        · exact .inl (.cons inside decoded alone ends same)
        · exact .inr ⟨_, _, opcode, operands, .cons inside decoded alone parts⟩

/-! ## Instructions that go beyond an image -/

/-- The listing of as many bytes as `image` has gets to `place`, and the operands of the
instruction there are all in `image ++ behind`, but not all in `image`. -/
structure CrossesAt (image behind : List UInt8) (place : Nat) : Prop where
  reached : ∃ line ∈ listing (image ++ behind) image.length, line.address = place
  crosses : ∃ opcode, (image ++ behind)[place]? = some (Opcode.encode opcode) ∧
    image.length ≤ place + opcode.operandCount ∧
    place + opcode.operandCount < (image ++ behind).length

/-- Of an instruction that goes beyond the image there is a line that does. -/
theorem CrossesAt.exists_line (crosses : CrossesAt image behind place) :
    ∃ line ∈ listing (image ++ behind) image.length, line.address = place ∧
      image.length < place + line.item.length := by
  obtain ⟨⟨line, shown, rfl⟩, opcode, here, beyond, whole⟩ := crosses
  have start : ((image ++ behind).drop line.address)[0]? = some opcode.encode := by
    rw [List.getElem?_drop]
    exact here
  have fits : opcode.operandCount < ((image ++ behind).drop line.address).length := by
    rw [List.length_drop]
    omega
  obtain ⟨operands, decoded⟩ := Item.exists_decode?_instruction start fits
  have item : line.item = .instruction opcode operands :=
    Option.some.inj ((itemAt?_of_mem shown).2.symm.trans decoded)
  refine ⟨line, shown, rfl, ?_⟩
  rw [item, Item.length_of_decode? decoded]
  omega

theorem SameFrom.not_crossesAt (same : SameFrom 0 image.length image behind) :
    ¬ CrossesAt image behind place := by
  intro crosses
  obtain ⟨line, shown, rfl, beyond⟩ := crosses.exists_line
  have := same.whole line shown
  omega

section parts
variable (parts : PartsFrom 0 image.length image behind shared place opcode operands)
include parts

theorem PartsFrom.longer_eq : listing (image ++ behind) image.length =
    shared ++ [⟨place, .instruction opcode operands⟩] := by
  have longer := parts.longer
  rwa [Nat.zero_add] at longer

theorem PartsFrom.crossesAt : CrossesAt image behind place := by
  refine ⟨⟨_, by rw [parts.longer_eq]; exact List.mem_append_right _ List.mem_cons_self, rfl⟩,
    opcode, ?_, parts.crosses, ?_⟩
  · have first := Item.getElem?_of_decode? parts.decoded (Item.length_pos _)
    rw [List.getElem?_drop] at first
    exact first
  · have whole := Item.length_le parts.decoded
    have inside := parts.inside
    rw [Item.length_of_decode? parts.decoded, List.length_drop, List.length_append] at whole
    rw [List.length_append]
    omega

/-- There is no other such instruction: all others end before it. -/
theorem PartsFrom.eq_of_crossesAt {other : Nat} (crosses : CrossesAt image behind other) :
    other = place := by
  obtain ⟨line, shown, rfl, beyond⟩ := crosses.exists_line
  rw [parts.longer_eq, List.mem_append, List.mem_singleton] at shown
  rcases shown with earlier | rfl
  · have := parts.before line earlier
    have := parts.inside
    omega
  · rfl

/-- The instruction shows the last bytes of the image and the first ones behind it. -/
theorem PartsFrom.exists_bytes : ∃ count, 0 < count ∧ count ≤ behind.length ∧
    (Item.instruction opcode operands).bytes = image.drop place ++ behind.take count := by
  have length := Item.length_of_decode? parts.decoded
  have whole := Item.length_le parts.decoded
  have inside := parts.inside
  have crosses := parts.crosses
  rw [length, List.length_drop, List.length_append] at whole
  refine ⟨place + (opcode.operandCount + 1) - image.length, by omega, by omega, ?_⟩
  rw [Item.bytes_eq_take parts.decoded, List.drop_append_of_le_length (Nat.le_of_lt inside),
    List.take_append, List.take_of_length_le, List.length_drop, length]
  · congr 2
    omega
  · rw [List.length_drop]
    omega

end parts

/-! ## Both listings -/

/-- How the listing of `image` differs from that of as many bytes of `image ++ behind` if the
last instruction, at `place`, goes beyond `image`. -/
structure PartsAt (image behind : List UInt8) (place : Nat) (shared rest : List Line)
    (opcode : Opcode) (operands : List UInt8) : Prop where
  only : ∀ other, CrossesAt image behind other → other = place
  near : place < image.length ∧ image.length - 2 ≤ place
  before : ∀ line ∈ shared, line.address < place
  longer : disassemble (image ++ behind) image.length =
    shared.map Line.text ++ [Line.text ⟨place, .instruction opcode operands⟩]
  shows : ∃ count, 0 < count ∧ count ≤ behind.length ∧
    (Item.instruction opcode operands).bytes = image.drop place ++ behind.take count
  alone : disassemble image image.length =
    shared.map Line.text ++ Line.text ⟨place, .data opcode.encode⟩ :: rest.map Line.text
  rest : image.drop (place + 1) = [] ∧ rest = [] ∨
    ∃ byte item, image.drop (place + 1) = [byte] ∧ Item.decode? [byte] = some item ∧
      rest = [⟨place + 1, item⟩]

/-- The listing of `image` beside that of as many bytes of `image ++ behind`. -/
structure ListedAlone (image behind : List UInt8) : Prop where
  same : (∀ place, ¬ CrossesAt image behind place) →
    disassemble image image.length = disassemble (image ++ behind) image.length
  parts : ∀ place, CrossesAt image behind place →
    ∃ shared rest opcode operands, PartsAt image behind place shared rest opcode operands

/-- Behind a data byte that was cut off there is at most one byte. -/
theorem listingFrom_rest (near : image.length - 2 ≤ place) :
    let rest := listingFrom (place + 1) image.length (image.drop (place + 1))
    image.drop (place + 1) = [] ∧ rest = [] ∨
      ∃ byte item, image.drop (place + 1) = [byte] ∧ Item.decode? [byte] = some item ∧
        rest = [⟨place + 1, item⟩] := by
  intro rest
  have left : (image.drop (place + 1)).length = image.length - (place + 1) := List.length_drop
  rcases Nat.lt_or_ge (place + 1) image.length with one | none
  · obtain ⟨byte, last⟩ := List.length_eq_one_iff.mp (left.trans (by omega))
    obtain ⟨item, decoded⟩ := Item.exists_decode? (List.cons_ne_nil byte [])
    have positive := item.length_pos
    refine .inr ⟨byte, item, last, decoded, ?_⟩
    have decoded' : Item.decode? (image.drop (place + 1)) = some item := last ▸ decoded
    unfold rest
    rw [listingFrom_of_lt one decoded', listingFrom_of_ge (by omega)]
  · exact .inl ⟨List.drop_of_length_le none, listingFrom_of_ge none _⟩

theorem PartsFrom.partsAt
    (parts : PartsFrom 0 image.length image behind shared place opcode operands) :
    PartsAt image behind place shared
      (listingFrom (place + 1) image.length (image.drop (place + 1))) opcode operands := by
  have few := opcode.operandCount_le_two
  have crosses := parts.crosses
  have near : image.length - 2 ≤ place := by omega
  refine ⟨fun _ => parts.eq_of_crossesAt, ⟨parts.inside, near⟩, ?_, ?_, parts.exists_bytes, ?_,
    listingFrom_rest near⟩
  · intro line shown
    have := parts.before line shown
    have := line.item.length_pos
    omega
  · rw [disassemble, parts.longer_eq, List.map_append, List.map_singleton]
  · have alone := parts.alone
    rw [Nat.zero_add] at alone
    rw [disassemble, listing, alone, List.map_append, List.map_cons]

theorem listedAlone (image behind : List UInt8) : ListedAlone image behind := by
  rcases sameFrom_or_partsFrom behind (Nat.zero_add image.length).symm with
    same | ⟨shared, place, opcode, operands, parts⟩
  · refine ⟨fun _ => ?_, fun place crosses => absurd crosses same.not_crossesAt⟩
    exact congrArg (List.map Line.text) same.same
  · refine ⟨fun none => absurd parts.crossesAt (none place), fun other crosses => ?_⟩
    rw [parts.eq_of_crossesAt crosses]
    exact ⟨shared, _, opcode, operands, parts.partsAt⟩

end Listing

/-- **An image is listed like the memory that it is in, up to a cut off end.** If the listing
of memory gets to no instruction whose operands begin in the image and end behind it, the two
listings are the same. Otherwise there is one such instruction, at one of the last two
addresses of the image. Before it the listings are the same. In memory it is the last line and
shows bytes from behind the image; in the image it is a data byte, and what is left of the
image is decoded by itself. Behind an image in a fresh machine there are zeros. -/
theorem image_is_listed_alone :
    (∀ image behind, Listing.ListedAlone image behind) ∧
    ∀ (image : List UInt8) (tracing : Bool), image.length ≤ 256 →
      ∃ zeros, zeros = List.replicate (256 - image.length) 0 ∧
        (Machine.fresh image tracing).store.memory.toList = image ++ zeros ∧
        Listing.ListedAlone image zeros := by
  refine ⟨Listing.listedAlone, ?_⟩
  intro image tracing fits
  refine ⟨_, rfl, ?_, Listing.listedAlone _ _⟩
  rw [Machine.toList_fresh fits, Memory.drop_toList_blank]

/-- Without the byte behind it LDI is a data byte, and its register the instruction HLT. No
byte is missing behind a HLT. -/
theorem image_is_listed_alone_cut_off_ldi :
    (∃ shared rest opcode operands,
      Listing.PartsAt [0x45, 0x00, 0x82, 0x01] [0x05] 2 shared rest opcode operands) ∧
    disassemble [0x01] 1 = disassemble [0x01, 0x05] 1 ∧
    ∃ zeros, (Machine.fresh [0x82] false).store.memory.toList = [0x82] ++ zeros ∧
      Listing.ListedAlone [0x82] zeros := by
  obtain ⟨listed, fresh⟩ := image_is_listed_alone
  refine ⟨(listed _ _).parts 2 ⟨?_, ?_⟩, (listed [0x01] [0x05]).same ?_, ?_⟩
  · exact ⟨⟨2, .instruction .ldi [0x01, 0x05]⟩, by decide +kernel, rfl⟩
  · exact ⟨.ldi, rfl, by decide, by decide⟩
  · rintro place ⟨⟨line, shown, rfl⟩, opcode, here, beyond, -⟩
    have only : listing ([0x01] ++ [0x05]) 1 = [⟨0, .instruction .hlt []⟩] := by decide +kernel
    rw [List.length_singleton, only, List.mem_singleton] at shown
    subst shown
    obtain rfl : Opcode.hlt = opcode := Opcode.encode_injective (Option.some.inj here)
    exact absurd beyond (by decide)
  · obtain ⟨zeros, -, cells, alone⟩ := fresh [0x82] false (by decide)
    exact ⟨zeros, cells, alone⟩

end ByteMachine
