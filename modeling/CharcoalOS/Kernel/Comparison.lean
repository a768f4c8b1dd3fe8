import CharcoalOS.Hardware.StringCompare
import CharcoalOS.Kernel.String

/-!
# The two string comparisons

`string_compare` looks for both terminators first. `string_compare_with_length` looks at one
index for them, and then compares bytes without looking for an earlier one. They agree where
the index is the length of the second string, `comparisons_agree`.

The shell looks commands up with the first, the device tree parser looks properties up with
the second, from memory: `comparesEqual_eq` says that it is the same function.
-/

namespace CharcoalOS.Kernel

/-- `string_compare_with_length`. `||` reads the second character only if the first is NUL. -/
def stringCompareWithLength (text other : List UInt8) (expectedLength : Nat)
    (checkNullTermination : Bool) : Option Bool :=
  if checkNullTermination then do
    let left ← text[expectedLength]?
    if left ≠ 0 then some false
    else do
      let right ← other[expectedLength]?
      if right ≠ 0 then some false else equalChars text other expectedLength
  else equalChars text other expectedLength

variable {a b : List UInt8} {n : ℕ}

/-- The loop compares as many characters as it is told to, NUL or not. -/
theorem equalChars_take (left : n ≤ a.length) (right : n ≤ b.length) :
    equalChars a b n = some (decide (a.take n = b.take n)) := by
  have lengths : (a.take n).length = n := List.length_take_of_le left
  have same : (a.take n).length = (b.take n).length := by
    rw [lengths, List.length_take_of_le right]
  have split := equalChars_append (a.drop n) (b.drop n) same
  rwa [List.take_append_drop, List.take_append_drop, lengths] at split

/-- The check for terminators at one index. -/
theorem stringCompareWithLength_checked {c d : UInt8} (left : a[n]? = some c)
    (right : b[n]? = some d) :
    stringCompareWithLength a b n true =
      some (decide (c = 0 ∧ d = 0 ∧ a.take n = b.take n)) := by
  obtain ⟨insideA, -⟩ := List.getElem?_eq_some_iff.mp left
  obtain ⟨insideB, -⟩ := List.getElem?_eq_some_iff.mp right
  rw [stringCompareWithLength, if_pos rfl, left, right, equalChars_take insideA.le insideB.le]
  simp only [Option.bind_eq_bind, Option.bind_some]
  by_cases first : c = 0
  · by_cases second : d = 0
    · simp [first, second]
    · simp [first, second]
  · simp [first]

/-- The storage `a` holds the characters of `text` up to index `n`. -/
def HoldsChars (value : ℕ → UInt8) (n : ℕ) (a : List UInt8) : Prop :=
  ∀ i ≤ n, a[i]? = some (value i)

theorem HoldsChars.take_eq_iff {value value' : ℕ → UInt8} (left : HoldsChars value n a)
    (right : HoldsChars value' n b) : a.take n = b.take n ↔ ∀ i < n, value i = value' i := by
  constructor
  · intro same i less
    have here := congrArg (·[i]?) same
    rw [List.getElem?_take_of_lt less, List.getElem?_take_of_lt less, left i less.le,
      right i less.le] at here
    exact Option.some.inj here
  · intro same
    refine List.ext_getElem? fun i => ?_
    by_cases less : i < n
    · rw [List.getElem?_take_of_lt less, List.getElem?_take_of_lt less, left i less.le,
        right i less.le, same i less]
    · rw [List.getElem?_take_eq_none (Nat.not_lt.mp less),
        List.getElem?_take_eq_none (Nat.not_lt.mp less)]

/-- What the walk computes from memory is this function of the storage there. -/
theorem comparesEqual_eq {mem : Memory} {text : CharPointer} {other : String}
    (left : HoldsChars (charValue mem text) n a) (right : HoldsChars (literalByte other) n b) :
    stringCompareWithLength a b n true = some (comparesEqual mem text other n) := by
  rw [stringCompareWithLength_checked (left n le_rfl) (right n le_rfl)]
  refine congrArg some (Bool.eq_iff_iff.mpr ?_)
  rw [decide_eq_true_iff, left.take_eq_iff right, comparesEqual_iff]

/-- Where the index is the length of the second string, the checked comparison is equality of
the strings. -/
theorem stringCompareWithLength_eq (terminated : 0 ∈ a) (right : ReadsAs (chars b) b)
    (room : (chars b).length + 1 ≤ a.length) :
    stringCompareWithLength a b (chars b).length true = some (decide (chars a = chars b)) := by
  have left := readsAs_chars terminated
  rw [stringCompareWithLength_checked (List.getElem?_eq_getElem room) right.terminator, right.take]
  refine congrArg some (decide_eq_decide.mpr ⟨?_, ?_⟩)
  · rintro ⟨ends, -, same⟩
    -- there is no NUL in `b` before, so the first one of `a` is at that index
    refine ReadsAs.chars ⟨right.1, a.drop ((chars b).length + 1), ?_⟩
    nth_rewrite 1 [← List.take_append_drop (chars b).length a]
    rw [same, List.drop_eq_getElem_cons room, ends]
  · intro same
    rw [same] at left
    have first := left.terminator
    rw [List.getElem?_eq_getElem room] at first
    exact ⟨Option.some.inj first, rfl, left.take⟩

/-- **The two comparisons agree**, with each other and with equality of the strings, whatever
is behind the terminator of the first. -/
theorem comparisons_agree (terminated : 0 ∈ a) (terminated' : 0 ∈ b)
    (length : stringLength b = some n) (room : n + 1 ≤ a.length) :
    stringCompare a b = some (decide (chars a = chars b)) ∧
      stringCompareWithLength a b n true = some (decide (chars a = chars b)) := by
  have left := readsAs_chars terminated
  have right := readsAs_chars terminated'
  have ends : n = (chars b).length := Option.some.inj (length.symm.trans right.stringLength)
  subst ends
  exact ⟨left.stringCompare right, stringCompareWithLength_eq terminated right room⟩

/-- `mem` and a NUL, then the rest of `memory` behind it. -/
theorem comparisons_agree_stale :
    stringCompare [109, 101, 109, 0, 114, 121, 0] (cString "memory") = some false ∧
      stringCompareWithLength [109, 101, 109, 0, 114, 121, 0] (cString "memory") 6 true =
        some false :=
  comparisons_agree (by decide) (by decide) (by decide) (by decide)

end CharcoalOS.Kernel
