import ByteMachine.Effect

/-!
# Rows of the instruction table

What an instruction does, written down as rules: the registers that its operands
have to name, the ends of the stack, and its effect, with arithmetic on
integers. Some rule always applies and no two disagree, so the order in which
operands and stack are checked is part of the rules. What instructions have in
common is read off the rules at the end.
-/

namespace ByteMachine

/-! ## The rows -/

/-- The operand byte `a` is the number of the register `r`. -/
def Names (a : UInt8) (r : Register) : Prop :=
  a.toNat = r.val

/-- What an instruction computes from two registers, as integers. -/
def Opcode.ofTwo? : Opcode → Option (Int → Int → Int)
  | add => some (· + ·)
  | sub => some (· - ·)
  | mul => some (· * ·)
  | _ => none

/-- What an instruction computes from one register, as integers. -/
def Opcode.ofOne? : Opcode → Option (Int → Int)
  | inc => some (· + 1)
  | dec => some (· - 1)
  | _ => none

/-- The rules for an instruction with operand bytes `a` and `b`. -/
inductive Row (store : Store) (a b : UInt8) : Opcode → Except Fault Effect → Prop
  -- operands that name no register; of two the second is reported
  | badSecond {opcode : Opcode} {f : Int → Int → Int} :
      opcode.ofTwo? = some f → 8 ≤ b.toNat → Row store a b opcode (.error (.invalidRegister b))
  | badFirst {opcode : Opcode} :
      opcode ≠ .hlt → (∀ f, opcode.ofTwo? = some f → b.toNat < 8) → 8 ≤ a.toNat →
      Row store a b opcode (.error (.invalidRegister a))
  -- the ends of the stack, behind the check of the operand
  | pushAtEnd {r : Register} :
      Names a r → store.sp = 0 → Row store a b .push (.error (.stackOutOfBounds .push 0))
  | popAtEnd {r : Register} :
      Names a r → r ≠ .sp → store.sp = 255 →
      Row store a b .pop (.error (.stackOutOfBounds .pop 255))
  | popSpAtEnd :
      Names a .sp → store.memory.get store.sp = 255 →
      Row store a b .pop (.error (.stackOutOfBounds .pop store.sp))
  -- effects
  | hlt : Row store a b .hlt (.ok { store, flow := .halt })
  | ldi {r : Register} : Names a r → Row store a b .ldi (.ok { store := store.setRegister r b })
  | prn {r : Register} :
      Names a r →
      Row store a b .prn
        (.ok { store, line := some (Numeral.decimalDigits (store.registers.get r).toNat) })
  | push {r : Register} :
      Names a r → r ≠ .sp → store.sp ≠ 0 →
      Row store a b .push
        (.ok { store := (store.setSp (store.sp - 1)).setCell (store.sp - 1)
                (store.registers.get r) })
  | pushSp :
      Names a .sp → store.sp ≠ 0 →
      Row store a b .push
        (.ok { store := (store.setSp (store.sp - 1)).setCell (store.sp - 1) (store.sp - 1) })
  | pop {r : Register} :
      Names a r → r ≠ .sp → store.sp ≠ 255 →
      Row store a b .pop
        (.ok { store := (store.setRegister r (store.memory.get store.sp)).setSp (store.sp + 1) })
  | popSp :
      Names a .sp → store.memory.get store.sp ≠ 255 →
      Row store a b .pop (.ok { store := store.setSp (store.memory.get store.sp + 1) })
  | ofTwo {opcode : Opcode} {f : Int → Int → Int} {r s : Register} {value : UInt8} :
      opcode.ofTwo? = some f → Names a r → Names b s →
      (value.toNat : Int) =
        f (store.registers.get r).toNat (store.registers.get s).toNat % 256 →
      Row store a b opcode (.ok { store := store.setRegister r value })
  | ofOne {opcode : Opcode} {f : Int → Int} {r : Register} {value : UInt8} :
      opcode.ofOne? = some f → Names a r →
      (value.toNat : Int) = f (store.registers.get r).toNat % 256 →
      Row store a b opcode (.ok { store := store.setRegister r value })

theorem names_iff {a : UInt8} {r : Register} : Names a r ↔ Register.ofByte a = .ok r :=
  Register.ofByte_eq_ok_iff.symm

theorem ofByte_of_large {a : UInt8} (h : 8 ≤ a.toNat) :
    Register.ofByte a = .error (.invalidRegister a) :=
  Register.ofByte_eq_error_iff.mpr ⟨h, rfl⟩

/-! ## Bytes and integers -/

theorem toNat_add_eq_emod (x y : UInt8) :
    ((x + y).toNat : Int) = ((x.toNat : Int) + y.toNat) % 256 := by
  rw [UInt8.toNat_add]
  omega

theorem toNat_sub_eq_emod (x y : UInt8) :
    ((x - y).toNat : Int) = ((x.toNat : Int) - y.toNat) % 256 := by
  have := x.toNat_lt
  have := y.toNat_lt
  rw [UInt8.toNat_sub]
  omega

theorem toNat_mul_eq_emod (x y : UInt8) :
    ((x * y).toNat : Int) = ((x.toNat : Int) * y.toNat) % 256 := by
  rw [UInt8.toNat_mul, Int.natCast_emod, Int.natCast_mul]
  rfl

/-- A byte is fixed by the integers that it is congruent to. -/
theorem eq_of_toNat_eq_emod {x y : UInt8} {n : Int} (hx : (x.toNat : Int) = n % 256)
    (hy : (y.toNat : Int) = n % 256) : x = y :=
  UInt8.toNat_inj.mp (Int.ofNat_inj.mp (hx.trans hy.symm))

/-- The byte operations of an arithmetic instruction are its integer operation
modulo 256. -/
theorem effect_of_ofTwo? {opcode : Opcode} {f : Int → Int → Int} (h : opcode.ofTwo? = some f)
    (a b : UInt8) (store : Store) :
    ∃ g : UInt8 → UInt8 → UInt8, opcode.effect a b store = Effect.binary g a b store ∧
      ∀ x y, ((g x y).toNat : Int) = f x.toNat y.toNat % 256 := by
  cases opcode with
  | add =>
    cases h
    exact ⟨_, rfl, toNat_add_eq_emod⟩
  | sub =>
    cases h
    exact ⟨_, rfl, toNat_sub_eq_emod⟩
  | mul =>
    cases h
    exact ⟨_, rfl, toNat_mul_eq_emod⟩
  | _ => cases h

theorem effect_of_ofOne? {opcode : Opcode} {f : Int → Int} (h : opcode.ofOne? = some f)
    (a b : UInt8) (store : Store) :
    ∃ g : UInt8 → UInt8, opcode.effect a b store = Effect.unary g a store ∧
      ∀ x, ((g x).toNat : Int) = f x.toNat % 256 := by
  cases opcode with
  | inc =>
    cases h
    exact ⟨_, rfl, fun x => toNat_add_eq_emod x 1⟩
  | dec =>
    cases h
    exact ⟨_, rfl, fun x => toNat_sub_eq_emod x 1⟩
  | _ => cases h

/-! ## Some rule applies, and no two disagree -/

variable {store : Store} {a b : UInt8} {opcode : Opcode} {answer : Except Fault Effect}

theorem effect_of_badFirst (h : opcode ≠ .hlt)
    (second : ∀ f, opcode.ofTwo? = some f → b.toNat < 8) (bad : 8 ≤ a.toNat) :
    opcode.effect a b store = .error (.invalidRegister a) := by
  have names : opcode.ofTwo? ≠ none → ∃ s, Register.ofByte b = .ok s := by
    intro two
    obtain ⟨f, eq⟩ := Option.ne_none_iff_exists'.mp two
    exact ⟨⟨b.toNat, second f eq⟩, names_iff.mp rfl⟩
  cases opcode with
  | hlt => exact absurd rfl h
  | add | sub | mul =>
    obtain ⟨s, named⟩ := names (by simp [Opcode.ofTwo?])
    simp only [Opcode.effect, Effect.binary, named, ofByte_of_large bad]
    rfl
  | ldi | prn =>
    simp only [Opcode.effect, ofByte_of_large bad]
    rfl
  | push | pop | inc | dec =>
    simp only [Opcode.effect, Effect.push, Effect.pop, Effect.unary, ofByte_of_large bad]
    rfl

theorem effect_eq_of_row (row : Row store a b opcode answer) :
    opcode.effect a b store = answer := by
  cases row with
  | badSecond two bad =>
    obtain ⟨g, eq, -⟩ := effect_of_ofTwo? two a b store
    rw [eq, Effect.binary, ofByte_of_large bad]
    rfl
  | badFirst other second bad => exact effect_of_badFirst other second bad
  | pushAtEnd names ends =>
    simp only [Opcode.effect, Effect.push, names_iff.mp names, ok_bind, if_pos ends]
    rw [ends]
  | popAtEnd names other ends =>
    simp only [Opcode.effect, Effect.pop, names_iff.mp names, ok_bind, if_neg other, if_pos ends]
    rw [ends]
  | popSpAtEnd names ends =>
    simp only [Opcode.effect, Effect.pop, names_iff.mp names, ok_bind, if_true, if_pos ends]
  | hlt => rfl
  | ldi names | prn names =>
    simp only [Opcode.effect, names_iff.mp names, ok_bind]
  | push names other room =>
    simp only [Opcode.effect, Effect.push, names_iff.mp names, ok_bind, if_neg room,
      Store.sp_setSp, Store.get_setSp_other _ other]
  | pushSp names room =>
    simp only [Opcode.effect, Effect.push, names_iff.mp names, ok_bind, if_neg room,
      Store.sp_setSp, Store.get_setSp_sp]
  | pop names other room =>
    simp only [Opcode.effect, Effect.pop, names_iff.mp names, ok_bind, if_neg other, if_neg room]
  | popSp names room =>
    simp only [Opcode.effect, Effect.pop, names_iff.mp names, ok_bind, if_true, if_neg room,
      Store.setSp_setRegister_sp]
  | ofTwo two first second value =>
    obtain ⟨g, eq, computes⟩ := effect_of_ofTwo? two a b store
    simp only [eq, Effect.binary, names_iff.mp first, names_iff.mp second, ok_bind]
    rw [eq_of_toNat_eq_emod (computes _ _) value]
  | ofOne one first value =>
    obtain ⟨g, eq, computes⟩ := effect_of_ofOne? one a b store
    simp only [eq, Effect.unary, names_iff.mp first, ok_bind]
    rw [eq_of_toNat_eq_emod (computes _) value]

theorem exists_names (a : UInt8) : (∃ r, Names a r) ∨ 8 ≤ a.toNat := by
  rcases Nat.lt_or_ge a.toNat 8 with small | large
  · exact .inl ⟨⟨a.toNat, small⟩, rfl⟩
  · exact .inr large

theorem exists_row_of_ofTwo? {f : Int → Int → Int} (two : opcode.ofTwo? = some f) :
    ∃ answer, Row store a b opcode answer := by
  rcases exists_names b with ⟨s, second⟩ | bad
  · rcases exists_names a with ⟨r, first⟩ | bad
    · obtain ⟨g, -, computes⟩ := effect_of_ofTwo? two a b store
      exact ⟨_, .ofTwo two first second (computes _ _)⟩
    · refine ⟨_, .badFirst ?_ (fun _ _ => ?_) bad⟩
      · rintro rfl
        cases two
      · rw [second]
        exact s.isLt
  · exact ⟨_, .badSecond two bad⟩

theorem exists_row_of_ofOne? {f : Int → Int} (one : opcode.ofOne? = some f) {r : Register}
    (names : Names a r) : ∃ answer, Row store a b opcode answer := by
  obtain ⟨g, -, computes⟩ := effect_of_ofOne? one a b store
  exact ⟨_, .ofOne one names (computes _)⟩

theorem exists_row (store : Store) (a b : UInt8) (opcode : Opcode) :
    ∃ answer, Row store a b opcode answer := by
  cases two : opcode.ofTwo? with
  | some f => exact exists_row_of_ofTwo? two
  | none =>
    by_cases operand : opcode = .hlt
    · subst operand
      exact ⟨_, .hlt⟩
    rcases exists_names a with ⟨r, names⟩ | bad
    · cases opcode with
      | hlt => exact absurd rfl operand
      | ldi => exact ⟨_, .ldi names⟩
      | prn => exact ⟨_, .prn names⟩
      | push =>
        by_cases ends : store.sp = 0
        · exact ⟨_, .pushAtEnd names ends⟩
        by_cases self : r = .sp
        · exact ⟨_, .pushSp (self ▸ names) ends⟩
        · exact ⟨_, .push names self ends⟩
      | pop =>
        by_cases self : r = .sp
        · by_cases ends : store.memory.get store.sp = 255
          · exact ⟨_, .popSpAtEnd (self ▸ names) ends⟩
          · exact ⟨_, .popSp (self ▸ names) ends⟩
        by_cases ends : store.sp = 255
        · exact ⟨_, .popAtEnd names self ends⟩
        · exact ⟨_, .pop names self ends⟩
      | add | sub | mul => cases two
      | inc | dec => exact exists_row_of_ofOne? rfl names
    · exact ⟨_, .badFirst operand (fun f eq => by rw [two] at eq; cases eq) bad⟩

/-- The rules say what each instruction does. -/
theorem row_iff : Row store a b opcode answer ↔ opcode.effect a b store = answer := by
  constructor
  · exact effect_eq_of_row
  · rintro rfl
    obtain ⟨answer, row⟩ := exists_row store a b opcode
    rw [effect_eq_of_row row]
    exact row

/-! ## What instructions have in common -/

namespace Row

variable {effect : Effect}

/-- An instruction refuses an operand or the stack, and nothing else. -/
theorem refusal {fault : Fault} (row : Row store a b opcode (.error fault)) :
    (∃ byte, fault = .invalidRegister byte) ∨ fault = .stackOutOfBounds opcode store.sp := by
  cases row with
  | badSecond | badFirst => exact .inl ⟨_, rfl⟩
  | pushAtEnd _ ends | popAtEnd _ _ ends => exact .inr (by rw [ends])
  | popSpAtEnd => exact .inr rfl

/-- Only PUSH writes memory, and only the cell below the top of the stack. -/
theorem memory (row : Row store a b opcode (.ok effect)) :
    effect.store.memory = store.memory ∨
      opcode = .push ∧ ∃ value, effect.store.memory = store.memory.set (store.sp - 1) value := by
  cases row with
  | push | pushSp => exact .inr ⟨rfl, _, rfl⟩
  | hlt | ldi | prn | pop | popSp | ofTwo | ofOne => exact .inl rfl

/-- Only HLT ends a program. -/
theorem eq_hlt (row : Row store a b opcode (.ok effect)) (halts : effect.flow = .halt) :
    opcode = .hlt := by
  cases row with
  | hlt => rfl
  | ldi | prn | push | pushSp | pop | popSp | ofTwo | ofOne => cases halts

/-- Only PRN prints, and it prints the register that its operand names. -/
theorem line {line : List Char} (row : Row store a b opcode (.ok effect))
    (prints : effect.line = some line) :
    opcode = .prn ∧ ∃ r, Names a r ∧
      line = Numeral.decimalDigits (store.registers.get r).toNat := by
  cases row with
  | prn names =>
    cases prints
    exact ⟨rfl, _, names, rfl⟩
  | hlt | ldi | push | pushSp | pop | popSp | ofTwo | ofOne => cases prints

end Row

end ByteMachine
