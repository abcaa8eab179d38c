import ByteMachine.Image
import ByteMachine.Proofs.Atomicity
import ByteMachine.Proofs.Grammar

/-!
# The capacity of memory

A program text is measured when it is read, and memory measures a program again when it
is loaded. Both draw the same line, so an image that a text gave is never refused by a
machine (`Image.Loadable`), and a text that gives none is rejected for its first fault,
however long it is, or else for its exact size (`capacity_is_kept`).
-/

namespace ByteMachine

namespace Image

variable {path text : String} {program : List UInt8} {error : LoadError}

/-! ## Images -/

/-- What is reported of the text of the file at `path` if it gives no image. -/
inductive Rejected (path text : String) : LoadError → Prop
  /-- A line is faulty. How much is read before it or after it does not matter. -/
  | malformed {error : LexError} (first : Source.FirstFault text error) :
      Rejected path text (.malformed path error)
  | tooLarge {bytes : List UInt8} (read : Source.program text = .ok bytes)
      (large : 256 < bytes.length) : Rejected path text (.tooLarge path bytes.length 256)

theorem ofText_of_program (read : Source.program text = .ok program) (path : String) :
    ofText path text = if program.length ≤ 256 then .ok program
      else .error (.tooLarge path program.length 256) := by
  rw [ofText, read]
  rfl

theorem ofText_of_firstFault {fault : LexError} (first : Source.FirstFault text fault)
    (path : String) : ofText path text = .error (.malformed path fault) := by
  rw [ofText, Source.program_eq_error_iff.mpr first]

theorem ofText_eq_ok_iff :
    ofText path text = .ok program ↔
      Source.program text = .ok program ∧ program.length ≤ 256 := by
  cases read : Source.program text with
  | error fault =>
    rw [ofText_of_firstFault (Source.program_eq_error_iff.mp read)]
    simp
  | ok bytes =>
    rw [ofText_of_program read]
    split
    · rename_i fits
      simp only [Except.ok.injEq]
      constructor
      · rintro rfl
        exact ⟨rfl, fits⟩
      · exact And.left
    · rename_i large
      simp only [reduceCtorEq, Except.ok.injEq, false_iff]
      rintro ⟨rfl, fits⟩
      exact large fits

theorem ofText_eq_error_iff : ofText path text = .error error ↔ Rejected path text error := by
  constructor
  · intro rejected
    cases read : Source.program text with
    | error fault =>
      have first := Source.program_eq_error_iff.mp read
      rw [ofText_of_firstFault first] at rejected
      cases rejected
      exact .malformed first
    | ok bytes =>
      rw [ofText_of_program read] at rejected
      split at rejected
      · cases rejected
      · rename_i large
        cases rejected
        exact .tooLarge read (Nat.lt_of_not_le large)
  · intro rejected
    cases rejected with
    | malformed first => exact ofText_of_firstFault first path
    | tooLarge read large => rw [ofText_of_program read, if_neg (Nat.not_le.mpr large)]

/-- Of a text with a faulty line, the first such line is reported. -/
theorem ofText_of_not_accepted (faulty : ¬ Source.Accepted text) (path : String) :
    ∃ fault, Source.FirstFault text fault ∧
      ofText path text = .error (.malformed path fault) := by
  cases read : Source.program text with
  | ok bytes => exact absurd (Source.exists_program_iff.mp ⟨bytes, read⟩) faulty
  | error fault =>
    have first := Source.program_eq_error_iff.mp read
    exact ⟨fault, first, ofText_of_firstFault first path⟩

/-! ## Loading -/

/-- Every machine loads the image, whatever it holds and whether it is stopped or not,
and a new one holds the image and zeros then. -/
structure Loadable (program : List UInt8) : Prop where
  loads : ∀ (machine : Machine) (sink : Sink), (machine.load program sink).result = .ok ()
  cells : ∀ (tracing : Bool) (sink : Sink),
    (({ tracing } : Machine).load program sink).machine.store.memory.toList =
      program ++ List.replicate (256 - program.length) 0
  runs : ∀ (machine : Machine) (sink : Sink) (length capacity : Nat),
    (machine.runWith program sink).result ≠ .error (.programTooLarge length capacity)

theorem loadable_of_fits (fits : program.length ≤ 256) : Loadable program where
  loads machine sink := Machine.load_of_fits (Nat.not_lt.mpr fits) machine sink
  cells tracing sink := by
    rw [Machine.toList_load fits]
    exact congrArg _ (Memory.drop_toList_blank program.length)
  runs machine sink length capacity rejected :=
    absurd fits (Nat.not_le.mpr (Machine.large_of_runWith_rejected rejected))

/-- **The capacity of memory is kept.** A text gives an image exactly if it is read as a
program of at most 256 bytes. If one of its lines is faulty, the first of these is
reported, however long the program is before it. Only a text without a faulty line is
too large, and then its exact size is reported. Every machine loads every image. -/
theorem capacity_is_kept (path text : String) :
    (∀ program, ofText path text = .ok program ↔
      Source.program text = .ok program ∧ program.length ≤ 256) ∧
    (∀ number literal, Source.LiteralAt text.toList number literal → ¬ Source.Fits literal →
      ∃ fault, Source.FirstFault text fault ∧
        ofText path text = .error (.malformed path fault)) ∧
    (∀ error, ofText path text = .error error ↔ Rejected path text error) ∧
    ∀ program, ofText path text = .ok program → Loadable program := by
  refine ⟨fun _ => ofText_eq_ok_iff, ?_, fun _ => ofText_eq_error_iff, ?_⟩
  · intro number literal here unfit
    apply ofText_of_not_accepted
    intro accepted
    exact unfit (accepted number literal here)
  · intro program image
    exact loadable_of_fits (ofText_eq_ok_iff.mp image).2

/-- The first of two faulty lines is reported, though a byte stands between them. -/
theorem capacity_is_kept_at_first_fault :
    ofText "p" "1\nxyz\n10\n100000000" = .error (.malformed "p" (.invalidLiteral 2 "xyz")) := by
  obtain ⟨-, -, rejected, -⟩ := capacity_is_kept "p" "1\nxyz\n10\n100000000"
  have faulty : Source.program "1\nxyz\n10\n100000000" = .error (.invalidLiteral 2 "xyz") := by
    decide +kernel
  apply (rejected _).mpr
  exact .malformed (Source.program_eq_error_iff.mp faulty)

end Image

end ByteMachine
