import CharcoalOS.Hardware.Endian

/-!
# `string_compare_with_length`

The walk compares bytes of the blob with literals of the kernel image. The
comparison reads the byte at the expected length before any other, so what it
reads is fixed by the expected length and not by where the text ends.
-/

namespace CharcoalOS

open Effect Effect.Program

/-- The byte at index `i` of a literal; its terminator and, past it, zero. -/
def literalByte (text : String) (i : Nat) : UInt8 :=
  (text.toList.getD i '\x00').toUInt8

section Model

variable (env : Env)

/-- `text[i]`. -/
def charAt (text : CharPointer) (i : Nat) : Discovery UInt8 :=
  match text with
  | .literal text => pure (literalByte text i)
  | .pointer p => readByte env (p.offset (UInt64.ofNat i))

/-- The `for` loop of the comparison, from index `i` on with `remaining` indices
to go. -/
def compareChars (text other : CharPointer) (i : Nat) : Nat → Discovery Bool
  | 0 => pure true
  | remaining + 1 => do
      let left ← charAt env text i
      let right ← charAt env other i
      if left ≠ right then
        pure false
      else
        compareChars text other (i + 1) remaining

/-- `string_compare_with_length`. -/
def stringCompareWithLength (text other : CharPointer) (expectedLength : Nat)
    (checkNullTermination : Bool) : Discovery Bool := do
  if checkNullTermination then
    -- `||` reads the second byte only if the first one is NUL
    let left ← charAt env text expectedLength
    if left ≠ 0 then
      pure false
    else do
      let right ← charAt env other expectedLength
      if right ≠ 0 then
        pure false
      else
        compareChars env text other 0 expectedLength
  else
    compareChars env text other 0 expectedLength

end Model

/-! ## The value of a comparison -/

/-- The byte at index `i` of a text in memory. -/
def charValue (mem : Memory) : CharPointer → Nat → UInt8
  | .literal text, i => literalByte text i
  | .pointer p, i => mem (p.address + UInt64.ofNat i)

/-- The `n` characters of `text` are those of the literal `other`, and both end
there. -/
def comparesEqual (mem : Memory) (text : CharPointer) (other : String) (n : Nat) : Bool :=
  charValue mem text n == 0 && literalByte other n == 0 &&
    (List.range n).all fun i => charValue mem text i == literalByte other i

theorem comparesEqual_iff {mem : Memory} {text : CharPointer} {other : String} {n : Nat} :
    comparesEqual mem text other n = true ↔
      charValue mem text n = 0 ∧ literalByte other n = 0 ∧
        ∀ i < n, charValue mem text i = literalByte other i := by
  simp [comparesEqual, and_assoc]

/-- A text in memory equals at most one of two literals that differ in their first
characters. -/
theorem comparesEqual_exclusive {mem : Memory} {text : CharPointer} {first second : String}
    {m n : Nat} (left : comparesEqual mem text first m = true)
    (right : comparesEqual mem text second n = true) (hm : 0 < m) (hn : 0 < n) :
    literalByte first 0 = literalByte second 0 :=
  ((comparesEqual_iff.mp left).2.2 0 hm).symm.trans ((comparesEqual_iff.mp right).2.2 0 hn)

/-! ## What a comparison does -/

/-- The read of `text[i]`: none for a literal. -/
def charRead : CharPointer → Nat → List Event
  | .literal _, _ => []
  | .pointer p, i => [.read (p.offset (UInt64.ofNat i))]

@[simp] theorem charValue_literal {mem : Memory} {text : String} {i : Nat} :
    charValue mem (.literal text) i = literalByte text i := rfl

@[simp] theorem charRead_literal {text : String} {i : Nat} :
    charRead (.literal text) i = [] := rfl

variable {env : Env} {info : HardwareInfo}

@[simp] theorem wp_charAt {text : CharPointer} {i : Nat}
    {Q : Post HardwareInfo Stop Event UInt8} :
    wp (charAt env text i) Q info ↔
      Q (.ok (charValue env.memory text i)) info (charRead text i) := by
  cases text <;> rfl

theorem compareChars_spec (text : CharPointer) (other : String) (i remaining : Nat) :
    wp (compareChars env text (.literal other) i remaining)
      (fun o info' evs =>
        o = .ok ((List.range' i remaining).all fun j =>
          charValue env.memory text j == literalByte other j) ∧
        info' = info ∧ ∀ e ∈ evs, ∃ j < i + remaining, e ∈ charRead text j) info := by
  induction remaining generalizing i with
  | zero => exact ⟨rfl, rfl, List.forall_mem_nil _⟩
  | succ remaining ih =>
      simp only [compareChars, wp_bind, wp_charAt, seqPost_ok, wp_ite, wp_pure,
        charValue_literal, charRead_literal, List.append_nil, List.nil_append]
      have here : ∀ e ∈ charRead text i,
          ∃ j < i + (remaining + 1), e ∈ charRead text j := fun e member =>
        ⟨i, by omega, member⟩
      split
      · rename_i differ
        refine ⟨?_, trivial, here⟩
        rw [List.range'_succ, List.all_cons, beq_false_of_ne differ, Bool.false_and]
      · rename_i same
        apply wp_mono (ih (i + 1))
        intro o info' evs post
        obtain ⟨rfl, rfl, reads⟩ := post
        refine ⟨?_, rfl, ?_⟩
        · rw [List.range'_succ, List.all_cons, beq_iff_eq.mpr (not_ne_iff.mp same), Bool.true_and]
        · intro e member
          rcases List.mem_append.mp member with first | later
          · exact here e first
          · obtain ⟨j, less, read⟩ := reads e later
            exact ⟨j, by omega, read⟩

/-- A comparison has the value `comparesEqual`. Whatever it finds, it reads
`text[n]`, and it reads nothing past that. -/
theorem stringCompareWithLength_spec (text : CharPointer) (other : String) (n : Nat) :
    wp (stringCompareWithLength env text (.literal other) n true)
      (fun o info' evs =>
        o = .ok (comparesEqual env.memory text other n) ∧ info' = info ∧
        (∀ e ∈ charRead text n, e ∈ evs) ∧
        ∀ e ∈ evs, ∃ j ≤ n, e ∈ charRead text j) info := by
  simp only [stringCompareWithLength, if_true, wp_bind, wp_charAt, seqPost_ok, wp_ite, wp_pure,
    charValue_literal, charRead_literal, List.append_nil, List.nil_append]
  have terminator : ∀ e ∈ charRead text n, ∃ j ≤ n, e ∈ charRead text j := fun e member =>
    ⟨n, Nat.le_refl n, member⟩
  split
  · rename_i unterminated
    refine ⟨?_, trivial, fun e member => member, terminator⟩
    rw [comparesEqual, beq_false_of_ne unterminated, Bool.false_and, Bool.false_and]
  · rename_i terminated
    split
    · rename_i longer
      refine ⟨?_, trivial, fun e member => member, terminator⟩
      rw [comparesEqual, beq_false_of_ne longer, Bool.and_false, Bool.false_and]
    · rename_i ends
      apply wp_mono (compareChars_spec text other 0 n)
      intro o info' evs post
      obtain ⟨rfl, rfl, reads⟩ := post
      refine ⟨?_, rfl, fun e member => List.mem_append_left _ member, ?_⟩
      · rw [comparesEqual, beq_iff_eq.mpr (not_ne_iff.mp terminated),
          beq_iff_eq.mpr (not_ne_iff.mp ends), List.range_eq_range', Bool.true_and, Bool.true_and]
      · intro e member
        rcases List.mem_append.mp member with first | later
        · exact terminator e first
        · obtain ⟨j, less, read⟩ := reads e later
          exact ⟨j, by omega, read⟩

end CharcoalOS
