import CharcoalOS.Kernel.Exceptions

/-!
# What printing does

`Prints` says that a routine prints and does nothing else, whatever interrupts it; it holds
of the console's print functions and of the diagnostics. What they print is in
`Kernel.Answering`.
-/

namespace CharcoalOS.Kernel

open Effect Effect.Program

/-- The routine prints, leaves every global alone, and returns. -/
def Prints (c : Routine Unit) : Prop :=
  ∀ P : State → Prop, c.Safe P (fun e => ∃ b, e = .putc b) (fun _ => True) fun _ => False

section Prints

variable {c d : Routine Unit} {text : List UInt8}

theorem Prints.safe {P : State → Prop} {E : Event → Prop} {Q : Unit → Prop} {F : Stop → Prop}
    (prints : Prints c) (allowed : ∀ b, E (.putc b)) (value : Q ()) : c.Safe P E Q F := by
  refine (prints P).mono (fun e putc => ?_) (fun _ _ => value) fun _ => False.elim
  obtain ⟨b, rfl⟩ := putc
  exact allowed b

/-- Undisturbed, it returns in the state it was called in. -/
theorem Prints.run (prints : Prints c) (s : State) :
    ∃ evs, c.run s = ⟨.ok (), s, evs⟩ ∧ ∀ e ∈ evs, ∃ b, e = .putc b := by
  obtain ⟨same, putcs, _, failure⟩ := (prints (· = s)).run (s := s) rfl
  rcases run : c.run s with ⟨o, s', evs⟩
  rw [run] at same putcs failure
  cases o with
  | error stop => exact (failure stop rfl).elim
  | ok _ =>
      cases same
      exact ⟨evs, rfl, putcs⟩

theorem Prints.pure : Prints (Pure.pure ()) := fun _ => trivial

theorem Prints.bind {f : Unit → Routine Unit} (first : Prints c) (then_ : Prints (f ())) :
    Prints (c >>= f) :=
  fun P => (first P).bind fun _ _ => then_ P

theorem Prints.ite {b : Prop} [Decidable b] (left : Prints c) (right : Prints d) :
    Prints (if b then c else d) := by
  split
  · exact left
  · exact right

theorem prints_putc (b : UInt8) : Prints (consolePutc b) :=
  fun _ => .emit ⟨b, rfl⟩ trivial

theorem prints_write {size : Nat} (enough : size ≤ text.length) :
    Prints (consoleWrite text size) := by
  induction text generalizing size with
  | nil =>
      rw [Nat.le_zero.mp enough, consoleWrite]
      exact .pure
  | cons b text ih =>
      cases size with
      | zero =>
          rw [consoleWrite]
          exact .pure
      | succ size =>
          rw [consoleWrite]
          refine .bind (.ite (prints_putc 13) .pure) (.bind (prints_putc b) ?_)
          exact ih (Nat.le_of_succ_le_succ enough)

/-- The print of any terminated string. -/
theorem prints_print (terminated : 0 ∈ text) : Prints (consolePrint text) := by
  obtain ⟨n, length, nul⟩ := exists_stringLength terminated
  rw [consolePrint, length]
  exact prints_write (List.getElem?_eq_some_iff.mp nul).1.le

theorem zero_mem_cString (text : String) : 0 ∈ cString text :=
  List.mem_append_right _ (List.mem_singleton.mpr rfl)

theorem prints_literal (text : String) : Prints (consolePrint (cString text)) :=
  prints_print (zero_mem_cString text)

theorem prints_hexByte (byte : UInt8) : Prints (printHexByte byte) :=
  .bind (prints_putc _) (prints_putc _)

theorem prints_hexBytes {data : List UInt8} {size : Nat} (enough : size ≤ data.length) :
    Prints (consolePrintHexBytes data size) := by
  induction data generalizing size with
  | nil =>
      rw [Nat.le_zero.mp enough, consolePrintHexBytes]
      exact .pure
  | cons byte data ih =>
      cases size with
      | zero =>
          rw [consolePrintHexBytes]
          exact .pure
      | succ size =>
          rw [consolePrintHexBytes]
          exact .bind (prints_hexByte byte) (ih (Nat.le_of_succ_le_succ enough))

theorem prints_hexDown {data : List UInt8} {i : Nat} (enough : i ≤ data.length) :
    Prints (printHexDown data i) := by
  induction i with
  | zero =>
      rw [printHexDown]
      exact .pure
  | succ i ih =>
      rw [printHexDown, List.getElem?_eq_getElem enough]
      exact Prints.bind (prints_hexByte _) (ih (Nat.le_of_succ_le enough))

@[simp] theorem length_hostBytes (platform : Platform) (size value : Nat) :
    (hostBytes platform size value).length = size := by
  simp only [hostBytes]
  split <;> simp

theorem prints_hex (platform : Platform) (value : UInt64) : Prints (printHex platform value) :=
  .ite (prints_hexBytes (length_hostBytes platform 8 _).ge)
    (prints_hexDown (length_hostBytes platform 8 _).ge)

theorem prints_savedRegisters (platform : Platform) (savedRegisters : Vector UInt64 32) (n : Nat) :
    Prints (printSavedRegisters platform savedRegisters n) := by
  induction n with
  | zero =>
      rw [printSavedRegisters]
      exact .pure
  | succ n ih =>
      rw [printSavedRegisters]
      exact .bind (prints_literal _) (.bind (prints_hex _ _) (.bind (prints_literal _)
        (.bind (prints_hex _ _) (.bind (prints_literal _) ih))))

theorem prints_diagnostics (platform : Platform) (exception : Exception) :
    Prints (printDiagnostics platform exception) := by
  rw [printDiagnostics]
  have text := prints_literal
  have hex := prints_hex platform
  refine .bind (text _) (.bind (text _) (.bind (hex _) (.bind (text _) (.bind (text _)
    (.bind (text _) ?_)))))
  refine .bind (text _) (.bind (hex _) (.bind (text _) (.bind (text _) ?_)))
  refine .bind (text _) (.bind (hex _) (.bind (text _) ?_))
  refine .bind (text _) (.bind (hex _) (.bind (text _) (.bind (hex _) ?_)))
  refine .bind (text _) (.bind (hex _) (.bind (text _) (.bind (hex _) ?_)))
  exact .bind (text _) (.bind (text _) (.bind (prints_savedRegisters _ _ _) (text _)))

end Prints

end CharcoalOS.Kernel
