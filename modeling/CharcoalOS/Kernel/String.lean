import Mathlib

/-!
# C strings in storage

The functions of `kernel/String/String.c` that the console uses. A `char *` is the
storage from the address it points to on; reading past its end gives no result.
-/

namespace CharcoalOS

/-- The characters of a string, and the NUL. -/
def cString (text : String) : List UInt8 := text.toList.map (fun c => UInt8.ofNat c.toNat) ++ [0]

def stringLength : List UInt8 → Option Nat
  | [] => none
  | c :: string => if c = 0 then some 0 else (stringLength string).map (· + 1)

/-- The loop of `string_compare`, with `n` characters to go. -/
def equalChars : List UInt8 → List UInt8 → Nat → Option Bool
  | _, _, 0 => some true
  | c :: text, d :: other, n + 1 => if c ≠ d then some false else equalChars text other n
  | _, _, _ + 1 => none

def stringCompare (text other : List UInt8) : Option Bool := do
  let lengthText ← stringLength text
  let lengthOther ← stringLength other
  if lengthText ≠ lengthOther then some false else equalChars text other lengthText

/-- The characters before the terminator. -/
def chars (string : List UInt8) : List UInt8 := string.takeWhile (· ≠ 0)

/-! ## Terminated storage -/

/-- Storage with a NUL has a string in it. -/
theorem exists_stringLength {string : List UInt8} (terminated : 0 ∈ string) :
    ∃ n, stringLength string = some n ∧ string[n]? = some 0 := by
  induction string with
  | nil => cases terminated
  | cons c string ih =>
      rw [stringLength]
      by_cases nul : c = 0
      · exact ⟨0, if_pos nul, congrArg some nul⟩
      · obtain ⟨n, length, there⟩ :=
          ih ((List.mem_cons.mp terminated).resolve_left (Ne.symm nul))
        refine ⟨n + 1, ?_, there⟩
        rw [if_neg nul, length]
        rfl

/-- `string` reads as the C string `text`; what follows the terminator is arbitrary. -/
def ReadsAs (text string : List UInt8) : Prop :=
  0 ∉ text ∧ ∃ behind, string = text ++ 0 :: behind

variable {text other string : List UInt8}

theorem ReadsAs.chars (reads : ReadsAs text string) : chars string = text := by
  obtain ⟨clean, behind, rfl⟩ := reads
  rw [CharcoalOS.chars, List.takeWhile_append_of_pos]
  · simp
  · intro c member
    exact decide_eq_true fun nul => clean (nul ▸ member)

/-- Terminated storage reads as its characters. -/
theorem readsAs_chars (terminated : 0 ∈ string) : ReadsAs (CharcoalOS.chars string) string := by
  induction string with
  | nil => cases terminated
  | cons c string ih =>
      by_cases nul : c = 0
      · rw [nul]
        exact ⟨List.not_mem_nil, string, rfl⟩
      · have first : CharcoalOS.chars (c :: string) = c :: CharcoalOS.chars string :=
          List.takeWhile_cons_of_pos (decide_eq_true nul)
        obtain ⟨clean, behind, same⟩ :=
          ih ((List.mem_cons.mp terminated).resolve_left (Ne.symm nul))
        rw [first]
        exact ⟨List.not_mem_cons_of_ne_of_not_mem (Ne.symm nul) clean, behind,
          congrArg (List.cons c) same⟩

theorem stringLength_append (clean : 0 ∉ text) (behind : List UInt8) :
    stringLength (text ++ 0 :: behind) = some text.length := by
  induction text with
  | nil => rfl
  | cons c text ih =>
      obtain ⟨first, rest⟩ := List.ne_and_not_mem_of_not_mem_cons clean
      rw [List.cons_append, stringLength, if_neg (Ne.symm first), ih rest]
      rfl

theorem ReadsAs.stringLength (reads : ReadsAs text string) :
    stringLength string = some text.length := by
  obtain ⟨clean, behind, rfl⟩ := reads
  exact stringLength_append clean behind

/-- Storage reads as its characters up to a NUL. -/
theorem readsAs_of_getElem? (clean : 0 ∉ text)
    (same : ∀ i < text.length, string[i]? = text[i]?) (ends : string[text.length]? = some 0) :
    ReadsAs text string := by
  refine ⟨clean, string.drop (text.length + 1), ?_⟩
  obtain ⟨inside, nul⟩ := List.getElem?_eq_some_iff.mp ends
  have front : string.take text.length = text := by
    refine List.ext_getElem? fun i => ?_
    by_cases less : i < text.length
    · rw [List.getElem?_take_of_lt less, same i less]
    · rw [List.getElem?_take_eq_none (Nat.not_lt.mp less),
        List.getElem?_eq_none (Nat.not_lt.mp less)]
  rw [← nul, ← List.drop_eq_getElem_cons inside]
  have split := List.take_append_drop text.length string
  rw [front] at split
  exact split.symm

theorem ReadsAs.terminator (reads : ReadsAs text string) : string[text.length]? = some 0 := by
  obtain ⟨-, behind, rfl⟩ := reads
  rw [List.getElem?_append_right le_rfl, Nat.sub_self, List.getElem?_cons_zero]

theorem ReadsAs.take (reads : ReadsAs text string) : string.take text.length = text := by
  obtain ⟨-, behind, rfl⟩ := reads
  exact List.take_left

theorem equalChars_append (behind behind' : List UInt8) (same : text.length = other.length) :
    equalChars (text ++ behind) (other ++ behind') text.length = some (decide (text = other)) := by
  induction text generalizing other with
  | nil =>
      rw [List.eq_nil_of_length_eq_zero same.symm, List.length_nil, equalChars]
      simp
  | cons c text ih =>
      cases other with
      | nil => cases same
      | cons d other =>
          rw [List.cons_append, List.cons_append, List.length_cons, equalChars]
          by_cases first : c = d
          · rw [if_neg (not_not.mpr first), ih (Nat.succ.inj same), first]
            simp
          · rw [if_pos first]
            simp [first]

/-- `string_compare` is equality of what the strings read as. -/
theorem ReadsAs.stringCompare {text' other' : List UInt8} (left : ReadsAs text text')
    (right : ReadsAs other other') : stringCompare text' other' = some (decide (text = other)) := by
  have lengths : CharcoalOS.stringCompare text' other' =
      if text.length ≠ other.length then some false else
        equalChars text' other' text.length := by
    rw [CharcoalOS.stringCompare, left.stringLength, right.stringLength]
    rfl
  rw [lengths]
  obtain ⟨_, behind, rfl⟩ := left
  obtain ⟨_, behind', rfl⟩ := right
  by_cases same : text.length = other.length
  · rw [if_neg (not_not.mpr same), equalChars_append _ _ same]
  · have different : text ≠ other := fun equal => same (congrArg List.length equal)
    rw [if_pos same, decide_eq_false different]

end CharcoalOS
